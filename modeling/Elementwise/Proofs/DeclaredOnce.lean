import Elementwise.Proofs.Compilation

/-!
# Types and constants are declared once

The record of the generator and the section of types say the same: what is on record is declared,
and what is declared is on record, structures and variables apart. What an instruction declares
can be told from its words without the result. So two declarations that differ in their results
only would have one entry in the record, and the second would not have been made.
-/
namespace Elementwise.Spirv
open IR Gen Relation

/-- The opcode, and the operand words apart from the result. -/
def Instruction.withoutResult (i : Instruction) : Opcode × List UInt32 :=
  match i.opcode.shape? with
  | some shape =>
    if shape.hasResult then (i.opcode, i.operands.eraseIdx (if shape.hasResultType then 1 else 0))
    else (i.opcode, i.operands)
  | none => (i.opcode, i.operands)

/-- Structures and variables are declared as often as they are needed. -/
def Instruction.isShared (i : Instruction) : Bool :=
  i.opcode ≠ .typeStruct && i.opcode ≠ .variableOp

namespace Declaration

/-- What is declared, by the opcode and the operand words apart from the result. -/
def ofWords? (op : Opcode) (words : List UInt32) : Option Declaration :=
  if op = .typeFunction then some (.function words)
  else if op = .constant then
    match words with
    | [type, low] => some (.constant type low.toUInt64)
    | [type, low, high] => some (.constant type (low.toUInt64 + high.toUInt64 * 4294967296))
    | _ => none
  else
    match words with
    | [] => some (.scalar (if op = .typeVoid then .void else .bool))
    | [a] =>
      if op = .typeFloat then some (.scalar (.float a))
      else if op = .typeRuntimeArray then some (.array a)
      else some (.constant a (if op = .constantTrue then 1 else 0))
    | [a, b] =>
      if op = .typeInt then some (.scalar (.int a))
      else if op = .typePointer then some (.pointer b a)
      else some (.vector a b)
    | _ => none

variable {d e : Declaration} {id id' : UInt32} {i j : Instruction}

/-- The literal words of a number hold all of its bits. -/
theorem ofWords?_number {type : UInt32} {bits : UInt64} {w : UInt32}
    (hexact : w = 64 ∨ bits.toNat < UInt32.size) :
    ofWords? .constant (type :: if w = 64 then Build.doubleWords bits else [bits.toUInt32]) =
      some (.constant type bits) := by
  have hop : Opcode.constant ≠ .typeFunction := by decide
  simp only [ofWords?, hop, if_false, if_true]
  by_cases hw : w = 64
  · rw [if_pos hw]
    have hbits : bits.toUInt32.toUInt64 + (bits >>> 32).toUInt32.toUInt64 * 4294967296 = bits := by
      apply UInt64.toNat.inj
      have hlt := bits.toNat_lt
      have hpow : (4294967296 : UInt64).toNat = 2 ^ 32 := by decide
      have hshift : (32 : UInt64).toNat % 64 = 32 := by decide
      simp only [UInt64.toNat_add, UInt64.toNat_mul, UInt32.toNat_toUInt64, UInt64.toNat_toUInt32,
        UInt64.toNat_shiftRight, Nat.shiftRight_eq_div_pow, hpow, hshift]
      omega
    simp only [Build.doubleWords, hbits]
  · rw [if_neg hw]
    have hlow : bits.toUInt32.toUInt64 = bits := by
      apply UInt64.toNat.inj
      rw [UInt32.toNat_toUInt64, UInt64.toNat_toUInt32]
      exact Nat.mod_eq_of_lt (hexact.resolve_left hw)
    simp only [hlow]

/-- What an instruction declares does not depend on its result. -/
theorem DeclaredBy.ofWords? (h : d.DeclaredBy id i) :
    Declaration.ofWords? i.withoutResult.1 i.withoutResult.2 = some d := by
  cases d with
  | scalar t => cases t <;> cases h <;> rfl
  | constant type bits =>
    obtain ⟨t, hexact, hi⟩ := h
    cases t <;> cases hi
    · rcases hexact with rfl | rfl <;> rfl
    · exact ofWords?_number hexact
    · exact ofWords?_number hexact
  | _ => cases h; rfl

theorem DeclaredBy.unique (h : d.DeclaredBy id i) (h' : e.DeclaredBy id' j)
    (heq : i.withoutResult = j.withoutResult) : d = e := by
  have hd := h.ofWords?
  rw [heq, h'.ofWords?] at hd
  exact (Option.some.inj hd).symm

end Declaration

/-! ## The record and the section -/

/-- The record and the section of types agree, and no two shared declarations are alike. -/
structure Generator.OnRecord (s : Generator) : Prop where
  recorded : ∀ (d : Declaration) id, d.id? s.interned = some id →
    ∃ i ∈ s.declared, d.DeclaredBy id i
  declared : ∀ i ∈ s.declared, i.isShared = true →
    ∃ (d : Declaration) (id : UInt32), d.DeclaredBy id i ∧ d.id? s.interned = some id
  once : (s.declared.filter Instruction.isShared).Pairwise fun i j =>
    i.withoutResult ≠ j.withoutResult

namespace Generator.OnRecord

variable {debug : Bool} {s s' : Generator} {d : Declaration} {i : Instruction}

theorem start (version : Version) : (Generator.start version).OnRecord := by
  refine ⟨fun d id hd => ?_, fun i hi => ?_, List.Pairwise.nil⟩
  · cases d <;> cases hd
  · cases hi

theorem same (h : s.OnRecord) (hdeclared : s'.declared = s.declared)
    (hid : ∀ d : Declaration, d.id? s'.interned = d.id? s.interned) : s'.OnRecord where
  recorded d id hd := hdeclared ▸ h.recorded d id (hid d ▸ hd)
  declared i hi hshared := by
    obtain ⟨d, id, hd, hrecord⟩ := h.declared i (hdeclared ▸ hi) hshared
    exact ⟨d, id, hd, (hid d).trans hrecord⟩
  once := hdeclared ▸ h.once

theorem declared_declare (hc : (s.declare d i).clean) :
    (s.declare d i).declared = s.declared ++ [i] := by
  have hput : (s.alloc.put .types i).clean := hc
  have hadd := (put_clean hput).2.2
  change (s.alloc.put .types i).declared = _
  rw [hadd]
  simp [Generator.declared, add, Assembly.append, alloc]

/-- What is not on record is not declared either. -/
theorem declare (h : s.OnRecord) (hnew : d.id? s.interned = none) (hi : d.DeclaredBy s.next i)
    (hc : (s.declare d i).clean) : (s.declare d i).OnRecord where
  recorded e id he := by
    rw [declared_declare hc]
    by_cases hed : e = d
    · subst hed
      cases Declaration.id?_record_self.symm.trans he
      exact ⟨i, by simp, hi⟩
    · have he' := (Declaration.id?_record_of_ne hed).symm.trans he
      obtain ⟨j, hj, hdeclared⟩ := h.recorded e id he'
      exact ⟨j, List.mem_append_left _ hj, hdeclared⟩
  declared j hj hshared := by
    rw [declared_declare hc] at hj
    rcases List.mem_append.1 hj with hj | hj
    · obtain ⟨e, id, he, hrecord⟩ := h.declared j hj hshared
      exact ⟨e, id, he, Declaration.id?_record hrecord hnew⟩
    · cases List.mem_singleton.1 hj
      exact ⟨d, s.next, hi, Declaration.id?_record_self⟩
  once := by
    have hshared : i.isShared = true := by simp [Instruction.isShared, hi.shared]
    rw [declared_declare hc, List.filter_append, List.filter_cons_of_pos hshared]
    refine List.pairwise_append.2 ⟨h.once, List.pairwise_singleton _ _, ?_⟩
    intro j hj i' hi' heq
    cases List.mem_singleton.1 hi'
    obtain ⟨hj, hjshared⟩ := List.mem_filter.1 hj
    obtain ⟨e, id, he, hrecord⟩ := h.declared j hj hjshared
    cases he.unique hi heq
    cases hrecord.symm.trans hnew

theorem own (h : s.OnRecord) (hop : i.opcode = .typeStruct ∨ i.opcode = .variableOp)
    (hc : (s.put .types i).clean) : (s.put .types i).OnRecord := by
  have hshared : i.isShared = false := by
    rcases hop with hop | hop <;> simp [Instruction.isShared, hop]
  have hdeclared : (s.put .types i).declared = s.declared ++ [i] := by
    rw [(put_clean hc).2.2]
    simp [Generator.declared, add, Assembly.append]
  refine ⟨fun d id hd => ?_, fun j hj hj' => ?_, ?_⟩
  · obtain ⟨j, hj, hdeclared'⟩ := h.recorded d id hd
    exact ⟨j, hdeclared ▸ List.mem_append_left _ hj, hdeclared'⟩
  · rw [hdeclared] at hj
    rcases List.mem_append.1 hj with hj | hj
    · exact h.declared j hj hj'
    · cases List.mem_singleton.1 hj
      cases hshared.symm.trans hj'
  · rw [hdeclared, List.filter_append, List.filter_cons_of_neg (by simp [hshared])]
    simpa using h.once

/-- An instruction of another section. -/
theorem put (h : s.OnRecord) {target home : Section} {n : Interned} (hhome : i.home? = some home)
    (hne : home ≠ .types) (hid : ∀ d : Declaration, d.id? n = d.id? s.interned)
    (hc : (s.put target i).clean) :
    ({ s.put target i with interned := n } : Generator).OnRecord := by
  refine h.same ?_ hid
  change (s.put target i).declared = _
  rw [(put_at_home hc hhome).2]
  cases home <;> first | rfl | exact absurd rfl hne

end Generator.OnRecord

variable {debug : Bool} {s s' : Generator}

theorem Assembles.onRecord (h : Assembles debug s s') (hc : s'.clean) (hs : s.OnRecord) :
    s'.OnRecord := by
  rcases h with h | hnew | hhome | ⟨-, hop⟩
  · rcases h with h | ⟨-, hop⟩ | ⟨hhome, -⟩ | ⟨-, -, -, -⟩
    · rcases h with h | ⟨-, hnew, hi⟩
      · exact hs.same (congrArg Array.toList (h.sections .types)) h.id?
      · exact hs.declare hnew hi hc
    · exact hs.put (home?_of_name hop) (by decide) (fun _ => rfl) hc
    · exact hs.put hhome (by decide) (fun _ => rfl) hc
    · have hput : (s.put .decorations _).clean := hc
      refine hs.put rfl (by decide) (fun d => ?_) hput
      cases d <;> rfl
  · exact hs.declare (d := .array _) hnew rfl hc
  · exact hs.put hhome (by decide) (fun _ => rfl) hc
  · exact hs.own hop hc

theorem onRecord_of_reaches (h : ReflTransGen (Assembles debug) s s') (hc : s'.clean)
    (hs : s.OnRecord) : s'.OnRecord := by
  induction h with
  | refl => exact hs
  | tail _ hstep ih => exact hstep.onRecord hc (ih (hstep.grows hc).clean)

/-- No two declarations, structures and variables apart, differ in their results only. -/
theorem compile_declaresOnce {program : Program} {options : Options} {c : Compiled}
    (h : compile program options = .ok c) :
    ∃ a, finishedModule program options = some a ∧ c.words = a.words ∧
      (a.types.toList.filter Instruction.isShared).Pairwise fun i j =>
        i.withoutResult ≠ j.withoutResult := by
  obtain ⟨k, entry, t, s, hrun⟩ := exists_compiledRun h
  have hrecord := onRecord_of_reaches hrun.run.reaches hrun.presented.clean (.start _)
  refine ⟨_, hrun.finished, hrun.words, ?_⟩
  rw [writePreamble_eq hrun.fits, hrun.presented.code.types]
  exact hrecord.once

theorem compile_declaresOnce_shifting : ∃ c a, compile shifting { debug := true } = .ok c ∧
    finishedModule shifting { debug := true } = some a ∧ c.words = a.words ∧
      (a.types.toList.filter Instruction.isShared).Pairwise fun i j =>
        i.withoutResult ≠ j.withoutResult := by
  obtain ⟨c, hc⟩ := exists_compile_shifting
  obtain ⟨a, h⟩ := compile_declaresOnce hc
  exact ⟨c, a, hc, h⟩

end Elementwise.Spirv
