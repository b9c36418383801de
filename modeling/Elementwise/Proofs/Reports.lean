import Elementwise.Proofs.KernelRequests
import Elementwise.Proofs.WellTyped

/-!
# Reports of unsupported types

A compiled program comes with a report for each number type in it that had to be declared as
another. The reports are told from the program alone: from its parameters, results, local
variables, conversions and constants, at any depth of pointers. That the types of all other values
add nothing needs that the program was compiled, since then every operand is a constant or stands
for something that is listed.
-/
namespace Elementwise.IR

/-- A type is part of another, at any depth of pointers. -/
inductive Ty.Within (t : Ty) : Ty → Prop
  | self : Within t t
  | pointer {elem : Ty} {space : Space} (h : Within t elem) : Within t (.pointer elem space)

namespace Program

/-- The types that stand in a program. -/
inductive Mentions (p : Program) : Ty → Prop
  | param {e : FuncId × Func} {q : ParamId × Param} (he : e ∈ p.functions)
      (hq : q ∈ e.2.signature e.1) : p.Mentions q.2.type
  | result {e : FuncId × Func} (he : e ∈ p.functions) : p.Mentions e.2.result
  | localVar {e : FuncId × Func} {id : InstrId} {name : Text} {elem : Ty} (he : e ∈ p.functions)
      (hx : (id, some (.localVar name elem)) ∈ e.2.entries e.1) : p.Mentions elem
  | conversion {e : FuncId × Func} {id : InstrId} {x : Value} {source target : Domain} {t : Ty}
      (he : e ∈ p.functions) (hx : (id, some (.convert x source t target)) ∈ e.2.entries e.1) :
      p.Mentions t
  | constant {e : FuncId × Func} {id : InstrId} {i : Instr} {c : Constant} (he : e ∈ p.functions)
      (hx : (id, some i) ∈ e.2.entries e.1) (hc : .constant c ∈ i.operands) : p.Mentions c.type

/-- A type occurs in a program, at any depth of pointers. -/
def Contains (p : Program) (t : Ty) : Prop := ∃ u, p.Mentions u ∧ t.Within u

end Program

end Elementwise.IR

namespace Elementwise.Spirv
open IR Gen Generator

/-! ## Unsupported types -/

/-- The number types that have to be declared as another. -/
inductive Unsupported : Ty → Prop
  | int {w : UInt32} (h : w ∉ [8, 16, 32, 64]) : Unsupported (.int w)
  | float {w : UInt32} (h : w ∉ [16, 32, 64]) : Unsupported (.float w)

variable {w : UInt32}

theorem hasIntWidth_iff : hasIntWidth w = true ↔ w ∈ [8, 16, 32, 64] := by
  simp [hasIntWidth, or_assoc]

theorem hasFloatWidth_iff : hasFloatWidth w = true ↔ w ∈ [16, 32, 64] := by
  simp [hasFloatWidth, or_assoc]

theorem unsupported_int : Unsupported (.int w) ↔ w ∉ [8, 16, 32, 64] :=
  ⟨fun | .int h => h, .int⟩

theorem unsupported_float : Unsupported (.float w) ↔ w ∉ [16, 32, 64] :=
  ⟨fun | .float h => h, .float⟩

theorem unsupportedPart?_eq_some_iff {t u : Ty} :
    unsupportedPart? t = some u ↔ u.Within t ∧ Unsupported u := by
  induction t with
  | int w =>
    unfold unsupportedPart?
    by_cases hw : hasIntWidth w = true
    · rw [if_pos hw]
      refine iff_of_false (by simp) ?_
      rintro ⟨⟨⟩, hu⟩
      exact unsupported_int.1 hu (hasIntWidth_iff.1 hw)
    · rw [if_neg hw, Option.some.injEq]
      constructor
      · rintro rfl
        exact ⟨.self, .int (mt hasIntWidth_iff.2 hw)⟩
      · rintro ⟨⟨⟩, -⟩
        rfl
  | float w =>
    unfold unsupportedPart?
    by_cases hw : hasFloatWidth w = true
    · rw [if_pos hw]
      refine iff_of_false (by simp) ?_
      rintro ⟨⟨⟩, hu⟩
      exact unsupported_float.1 hu (hasFloatWidth_iff.1 hw)
    · rw [if_neg hw, Option.some.injEq]
      constructor
      · rintro rfl
        exact ⟨.self, .float (mt hasFloatWidth_iff.2 hw)⟩
      · rintro ⟨⟨⟩, -⟩
        rfl
  | pointer elem space ih =>
    refine ih.trans ⟨fun h => ⟨.pointer h.1, h.2⟩, ?_⟩
    rintro ⟨h | h, hu⟩
    · cases hu
    · exact ⟨h, hu⟩
  | _ =>
    refine iff_of_false (by simp [unsupportedPart?]) ?_
    rintro ⟨⟨⟩, ⟨⟩⟩

theorem unsupportedPart?_resultType (f : Func) :
    unsupportedPart? f.resultType = unsupportedPart? f.result := by
  unfold Func.resultType
  cases f.result <;> rfl

/-! ## Requests of listed instructions -/

section Listed

attribute [local simp] Instr.operands

variable {p : Program} {e : FuncId × Func} {id : InstrId} {i : Instr} {v : Value} {t : Ty}
variable {slot : Option Instr}

theorem mem_askProgram {a : Ask} : a ∈ askProgram p ↔ ∃ e ∈ p.functions,
    a = .type e.2.resultType ∨
    (∃ q ∈ e.2.signature e.1, a = .type q.2.type ∨ a = .define (.param q.1)) ∨
    ∃ x ∈ e.2.entries e.1, a ∈ askHoist x ∨ a ∈ askSlot p x := by
  simp only [askProgram, askFunc, List.mem_flatMap, List.mem_append, List.mem_cons, List.mem_map,
    and_or_left, exists_or, or_assoc, eq_comm (a := a)]

theorem askInstr_subset (he : e ∈ p.functions) (hx : (id, some i) ∈ e.2.entries e.1) :
    askInstr p id i ⊆ askProgram p :=
  fun _ ha => mem_askProgram.2 ⟨e, he, .inr (.inr ⟨_, hx, .inr ha⟩)⟩

theorem askOperand_subset (hv : v ∈ i.operands) : askOperand v ⊆ askInstr p id i := by
  intro a ha
  simp only [askInstr, List.mem_append, List.mem_flatMap]
  exact .inl (.inr ⟨v, hv, ha⟩)

theorem define_askTypeOf (w : Value) : .define v ∉ askTypeOf p w := by
  unfold askTypeOf
  cases p.typeOf w <;> simp

theorem define_askOperand (w : Value) : .define v ∉ askOperand w := by
  cases w <;> simp [askOperand]

theorem result_of_slot (hv : .define v ∈ askSlot p (id, slot)) :
    ∃ i, slot = some i ∧ v = .result id := by
  obtain _ | i := slot
  · cases hv
  have hkey : v ∈ loweredKeys id i := by
    change .define v ∈ askInstr p id i at hv
    simpa [askInstr, define_askTypeOf, define_askOperand] using hv
  refine ⟨i, rfl, ?_⟩
  cases i with
  | localVar | store | branch | condBranch | ret => cases hkey
  | _ => exact List.mem_singleton.1 hkey

theorem mem_askHoist {a : Ask} : a ∈ askHoist (id, slot) ↔ ∃ name elem,
    slot = some (.localVar name elem) ∧
      (a = .type (.pointer elem .function) ∨ a = .define (.result id)) := by
  obtain _ | i := slot
  · simp [askHoist]
  cases i <;> simp [askHoist]

/-- Only parameters and results of listed instructions are given ids. -/
theorem param_or_result_of_defines (hv : .define v ∈ askProgram p) :
    ∃ e ∈ p.functions, (∃ q ∈ e.2.signature e.1, v = .param q.1) ∨
      ∃ id i, (id, some i) ∈ e.2.entries e.1 ∧ v = .result id := by
  obtain ⟨e, he, ⟨⟨⟩⟩ | ⟨q, hq, ⟨⟨⟩⟩ | ⟨⟨⟩⟩⟩ | ⟨⟨id, slot⟩, hx, hv | hv⟩⟩ := mem_askProgram.1 hv
  · exact ⟨e, he, .inl ⟨q, hq, rfl⟩⟩
  · obtain ⟨name, elem, rfl, ⟨⟨⟩⟩ | ⟨⟨⟩⟩⟩ := mem_askHoist.1 hv
    exact ⟨e, he, .inr ⟨id, _, hx, rfl⟩⟩
  · obtain ⟨i, rfl, rfl⟩ := result_of_slot hv
    exact ⟨e, he, .inr ⟨id, i, hx, rfl⟩⟩

theorem mem_askTypeOf : .type t ∈ askTypeOf p v ↔ p.typeOf v = .ok t := by
  unfold askTypeOf
  cases p.typeOf v <;> simp [eq_comm]

theorem mem_askOperand : .type t ∈ askOperand v ↔ ∃ c, v = .constant c ∧ c.type = t := by
  cases v <;> simp [askOperand, eq_comm]

/-! ## What is mentioned is asked for -/

/-- Every type that stands in a program is asked for, or a pointer to it. -/
theorem exists_types_of_mentions (h : p.Mentions t) :
    ∃ t', .type t' ∈ askProgram p ∧ unsupportedPart? t' = unsupportedPart? t := by
  induction h with
  | @param e q he hq =>
    exact ⟨q.2.type, mem_askProgram.2 ⟨e, he, .inr (.inl ⟨q, hq, .inl rfl⟩)⟩, rfl⟩
  | @result e he =>
    exact ⟨e.2.resultType, mem_askProgram.2 ⟨e, he, .inl rfl⟩, unsupportedPart?_resultType e.2⟩
  | @localVar e id name elem he hx =>
    refine ⟨.pointer elem .function, mem_askProgram.2 ⟨e, he, .inr (.inr ⟨_, hx, .inl ?_⟩)⟩, rfl⟩
    exact mem_askHoist.2 ⟨name, elem, rfl, .inl rfl⟩
  | @conversion e id x source target t he hx =>
    refine ⟨t, askInstr_subset he hx ?_, rfl⟩
    have hresult := Program.typeOf_convert (Program.instr?_of_mem_entries he hx)
    simp [askInstr, Instr.typed, mem_askTypeOf, hresult]
  | @constant e id i c he hx hc =>
    refine ⟨c.type, askInstr_subset he hx ?_, rfl⟩
    exact askOperand_subset hc (mem_askOperand.2 ⟨c, rfl, rfl⟩)

/-! ## What is asked for is mentioned -/

/-- An unsupported part of some type that stands in a program. -/
def Traced (p : Program) (u : Ty) : Prop := ∃ t, p.Mentions t ∧ unsupportedPart? t = some u

/-- The values that an instruction can refer to. -/
inductive Reachable (p : Program) : Value → Prop
  | given {v : Value} (h : .define v ∈ askProgram p) : Reachable p v
  | constant {c : Constant} (h : p.Mentions c.type) : Reachable p (.constant c)

theorem Settled.reachable (h : Settled p) (he : e ∈ p.functions)
    (hx : (id, some i) ∈ e.2.entries e.1) (hv : v ∈ i.operands) : Reachable p v := by
  cases v with
  | constant c => exact .constant (.constant he hx hv)
  | _ =>
    refine .given (h.uses _ (askInstr_subset he hx ?_))
    exact askOperand_subset hv (List.mem_singleton_self _)

/-- The type of a value comes from a type that stands in the program, by way of the operands that
it is found from. -/
theorem Settled.traced (h : Settled p) {k : Nat} {u : Ty} (hv : Reachable p v)
    (ht : p.typeWithin k v = .ok t) (hu : unsupportedPart? t = some u) : Traced p u := by
  induction k using Nat.strong_induction_on generalizing v t with
  | _ k ih =>
    cases hv with
    | constant hc =>
      unfold Program.typeWithin at ht
      cases ht
      exact ⟨_, hc, hu⟩
    | given hdefined =>
      obtain ⟨e, he, ⟨q, hq, rfl⟩ | ⟨id, i, hx, rfl⟩⟩ := param_or_result_of_defines hdefined
      · unfold Program.typeWithin at ht
        rw [Program.param?_of_mem_signature he hq] at ht
        cases ht
        exact ⟨_, .param he hq, hu⟩
      · cases k with
        | zero => cases ht
        | succ k =>
          have hfollow {v : Value} {t : Ty} (hv : v ∈ i.operands)
              (ht : p.typeWithin k v = .ok t) (hu : unsupportedPart? t = some u) : Traced p u :=
            ih k (Nat.lt_succ_self k) (h.reachable he hx hv) ht hu
          rw [Program.typeWithin_succ, Program.typeStep, Program.instr?_of_mem_entries he hx] at ht
          cases i with
          | binary op domain l r => exact hfollow (by simp) ht hu
          | compare pred domain l r =>
            cases ht
            cases hu
          | negate domain x => exact hfollow (by simp) ht hu
          | convert x source type target =>
            cases ht
            exact ⟨_, .conversion he hx, hu⟩
          | load pointer =>
            obtain ⟨ty, hty, ht⟩ := bind_eq_ok.1 ht
            cases ty with
            | pointer elem space =>
              cases ht
              exact hfollow (by simp) hty hu
            | _ =>
              cases ht
              cases hu
          | elementPtr base index => exact hfollow (by simp) ht hu
          | localVar name elem =>
            cases ht
            exact ⟨elem, .localVar he hx, hu⟩
          | call callee args =>
            obtain _ | f := callee
            · cases ht
            · have hasked : .call f ∈ askInstr p id (.call (some f) args) := by
                simp [askInstr, Instr.callees]
              obtain ⟨g, hg⟩ := h.calls f (askInstr_subset he hx hasked)
              have hfunc : p.func? f = some g := Program.func?_of_mem_functions hg
              simp only [hfunc, Except.ok.injEq] at ht
              rw [← ht, unsupportedPart?_resultType] at hu
              exact ⟨g.result, .result hg, hu⟩
          | _ => cases ht

theorem lowered_or_operand_of_typed (hv : v ∈ i.typed id) :
    v ∈ loweredKeys id i ∨ v ∈ i.operands := by
  cases i with
  | convert x source type target =>
    rcases List.mem_cons.1 hv with rfl | hv
    · exact Or.inr (List.mem_singleton_self _)
    · exact Or.inl hv
  | localVar | store | branch | condBranch | ret => cases hv
  | _ => exact Or.inl hv

/-- The unsupported parts of the types that a program asks for stand in it. -/
theorem Settled.traced_types (h : Settled p) {u : Ty} (ht : .type t ∈ askProgram p)
    (hu : unsupportedPart? t = some u) : Traced p u := by
  obtain ⟨e, he, ⟨⟨⟩⟩ | ⟨q, hq, ⟨⟨⟩⟩ | ⟨⟨⟩⟩⟩ | ⟨⟨id, slot⟩, hx, ht | ht⟩⟩ := mem_askProgram.1 ht
  · rw [unsupportedPart?_resultType] at hu
    exact ⟨_, .result he, hu⟩
  · exact ⟨_, .param he hq, hu⟩
  · obtain ⟨name, elem, rfl, ⟨⟨⟩⟩ | ⟨⟨⟩⟩⟩ := mem_askHoist.1 ht
    exact ⟨elem, .localVar he hx, hu⟩
  · obtain _ | i := slot
    · cases ht
    have hparts : (∃ v ∈ i.typed id, p.typeOf v = .ok t) ∨
        ∃ c, .constant c ∈ i.operands ∧ c.type = t := by
      change .type t ∈ askInstr p id i at ht
      simpa [-Instr.operands, askInstr, mem_askTypeOf, mem_askOperand] using ht
    rcases hparts with ⟨v, hv, ht⟩ | ⟨c, hc, rfl⟩
    · refine h.traced ?_ ht hu
      rcases lowered_or_operand_of_typed hv with hv | hv
      · exact .given (askInstr_subset he hx (by simp [askInstr, hv]))
      · exact h.reachable he hx hv
    · exact ⟨_, .constant he hx hc, hu⟩

end Listed

variable {program : Program} {options : Options} {c : Compiled}

/-- The elements of a kernel have the type that its parameter points to. -/
theorem mentions_element {kernel : FuncId × Func} {elem : Ty}
    (hkernel : program.kernel? = some kernel) (helem : elementType kernel.2 = .ok elem) :
    program.Mentions (.pointer elem .buffer) := by
  obtain ⟨q, hparams, hq, -⟩ := elementType_ok helem
  have hlisted : kernel ∈ program.functions := by
    refine List.reduceOption_mem_iff.2 ?_
    unfold Program.kernel? at hkernel
    split at hkernel
    next entry rest heq =>
      cases hkernel
      exact heq ▸ List.mem_cons_self
    · cases hkernel
  have hparam : (⟨kernel.1, 0⟩, q) ∈ kernel.2.signature kernel.1 := by
    rw [Func.signature, Func.paramIds, hparams]
    exact List.mem_singleton_self _
  exact hq ▸ .param hlisted hparam

theorem Fulfilled.reported {elem u : Ty} {s : Generator} (h : Fulfilled program options elem s)
    (helem : program.Mentions (.pointer elem .buffer)) :
    u ∈ s.interned.unsupported ↔ Unsupported u ∧ program.Contains u := by
  rw [h.account.reported]
  constructor
  · rintro ⟨t, ht, hu⟩
    have htraced : Traced program u := by
      obtain ⟨⟨⟩⟩ | ht := List.mem_cons.1 ht
      · exact ⟨_, helem, hu⟩
      · exact h.settled.traced_types ht hu
    obtain ⟨t', hmentions, hpart⟩ := htraced
    obtain ⟨hwithin, hunsupported⟩ := unsupportedPart?_eq_some_iff.1 hpart
    exact ⟨hunsupported, t', hmentions, hwithin⟩
  · rintro ⟨hunsupported, t, hmentions, hwithin⟩
    obtain ⟨t', ht', hpart⟩ := exists_types_of_mentions hmentions
    refine ⟨t', List.mem_cons_of_mem _ ht', ?_⟩
    rw [hpart]
    exact unsupportedPart?_eq_some_iff.2 ⟨hwithin, hunsupported⟩

/-! ## Reports -/

/-- The reports on a program: one for each number type in it that is not supported, and no
others. -/
structure Reports (program : Program) (reports : List Diagnostic) : Prop where
  once : reports.Nodup
  ints : ∀ w, { cause := .unsupportedInt w } ∈ reports ↔
    w ∉ [8, 16, 32, 64] ∧ program.Contains (.int w)
  floats : ∀ w, { cause := .unsupportedFloat w } ∈ reports ↔
    w ∉ [16, 32, 64] ∧ program.Contains (.float w)
  others : ∀ d ∈ reports,
    ∃ w, d = { cause := .unsupportedInt w } ∨ d = { cause := .unsupportedFloat w }

theorem reports_of_unsupported {n : Interned} (hnodup : n.unsupported.Nodup)
    (hmem : ∀ u, u ∈ n.unsupported ↔ Unsupported u ∧ program.Contains u) :
    Reports program n.diagnostics where
  once := by
    refine List.Nodup.map_on ?_ hnodup
    intro t ht u hu heq
    obtain ⟨ht, -⟩ := (hmem t).1 ht
    obtain ⟨hu, -⟩ := (hmem u).1 hu
    cases ht <;> cases hu <;> cases heq <;> rfl
  ints w := by
    rw [← unsupported_int, ← hmem]
    refine ⟨fun h => ?_, fun h => List.mem_map.2 ⟨_, h, rfl⟩⟩
    obtain ⟨t, ht, heq⟩ := List.mem_map.1 h
    cases ((hmem t).1 ht).1 <;> cases heq
    exact ht
  floats w := by
    rw [← unsupported_float, ← hmem]
    refine ⟨fun h => ?_, fun h => List.mem_map.2 ⟨_, h, rfl⟩⟩
    obtain ⟨t, ht, heq⟩ := List.mem_map.1 h
    cases ((hmem t).1 ht).1 <;> cases heq
    exact ht
  others d hd := by
    obtain ⟨t, ht, rfl⟩ := List.mem_map.1 hd
    cases ((hmem t).1 ht).1 with
    | @int w _ => exact ⟨w, Or.inl rfl⟩
    | @float w _ => exact ⟨w, Or.inr rfl⟩

/-- What a finished module is judged by is all that stands between it and a result. -/
theorem compile_of_finished {abi : HostCodes → Abi} {words : List UInt32} {s s' : Generator}
    (hassemble : assemble program options (.start options.version) = .ok abi s)
    (hfinish : finish s = .ok words s') :
    compile program options = (judge options words s'.interned.diagnostics).map fun _ =>
      ⟨words, abi {}, s'.interned.diagnostics⟩ := by
  have hrun : (do
      let abi ← assemble program options
      return (← finish, abi) : Gen (List UInt32 × (HostCodes → Abi))) (.start options.version) =
        .ok (words, abi) s' := by
    simp only [bind_ok, pure_ok]
    exact ⟨abi, s, hassemble, words, s', hfinish, rfl, rfl⟩
  unfold compile compileLogged
  simp only [hrun]
  cases judge options words s'.interned.diagnostics <;> rfl

/-- Strictness turns the first report into an error and changes nothing else. -/
theorem compile_strict (h : compile program { options with strict := false } = .ok c) :
    compile program { options with strict := true } =
      match c.unsupported with
      | [] => .ok c
      | d :: _ => .error (.diagnostic d) := by
  obtain ⟨abi, s, s', hassemble, hfinish, hjudge, hc⟩ := compile_ok.1 h
  have hstrict : compile program { options with strict := true } = _ :=
    compile_of_finished hassemble hfinish
  have hunsupported : c.unsupported = s'.interned.diagnostics := by rw [← hc]
  rw [hstrict, hc, hunsupported]
  unfold judge at hjudge ⊢
  dsimp only at hjudge ⊢
  cases hverified : (if options.validation = true then verify c.words else .ok ()) with
  | error v => simp [hverified] at hjudge
  | ok u =>
    cases s'.interned.diagnostics with
    | nil => rfl
    | cons d rest => rfl

/-- Every type that is not supported is reported once, wherever it stands in the program, and
nothing else is; a strict compilation gives the same result if there is nothing to report, and else
fails with the first report. -/
theorem reports_compiled (h : compile program { options with strict := false } = .ok c) :
    Reports program c.unsupported ∧
      compile program { options with strict := true } =
        match c.unsupported with
        | [] => .ok c
        | d :: _ => .error (.diagnostic d) := by
  refine ⟨?_, compile_strict h⟩
  obtain ⟨k, entry, t, s, kernel, elem, hrun, hkernel, helem, -, hdone⟩ := exists_fulfilled h
  rw [hrun.unsupported]
  exact reports_of_unsupported hdone.account.nodup fun u =>
    hdone.reported (mentions_element hkernel helem)

theorem reports_compiled_shifting : ∃ c, compile shifting { debug := true } = .ok c ∧
    c.unsupported = [{ cause := .unsupportedInt 24 }] ∧ Reports shifting c.unsupported ∧
    compile shifting { debug := true, strict := true } =
      .error (.diagnostic { cause := .unsupportedInt 24 }) := by
  have hreported : (compile shifting { debug := true }).map Compiled.unsupported =
      .ok [{ cause := .unsupportedInt 24 }] := by decide +kernel
  obtain ⟨c, hc⟩ := exists_compile_shifting
  rw [hc] at hreported
  have hunsupported : c.unsupported = [{ cause := .unsupportedInt 24 }] :=
    Except.ok.inj hreported
  have hlenient : compile shifting { ({ debug := true } : Options) with strict := false } = .ok c :=
    hc
  obtain ⟨hreports, hstrict⟩ := reports_compiled hlenient
  rw [hunsupported] at hstrict
  exact ⟨c, hc, hunsupported, hreports, hstrict⟩

end Elementwise.Spirv
