import Elementwise.IR.Program
import Mathlib.Data.List.Nodup
import Mathlib.Data.List.Perm.Subperm

/-!
# Types of values

The type of a value is found by following operands, for no more steps than the program has
instructions. That bound is never felt: operands that are followed without end come back to where
they began, and a chain without repetition is no longer than the program. So the type of a result
is found from the types of its operands, with no mention of steps.
-/
namespace Elementwise.IR.Program

variable {p : Program} {id : InstrId} {v : Value} {t : Ty} {k : Nat} {domain : Domain}

/-- The type of a result, given the types of the operands. -/
def typeStep (p : Program) (typeOf : Value → Except Panic Ty) (id : InstrId) : Except Panic Ty :=
  match p.instr? id with
  | some (.binary _ _ l _) => typeOf l
  | some (.compare ..) => .ok .bool
  | some (.negate _ x) => typeOf x
  | some (.convert _ _ type _) => .ok type
  | some (.load ptr) => do
    match ← typeOf ptr with
    | .pointer elem _ => return elem
    | _ => return .void
  | some (.elementPtr base _) => typeOf base
  | some (.localVar _ elem) => .ok (.pointer elem .function)
  | some (.call (some f) _) =>
    match p.func? f with
    | some g => .ok g.resultType
    | none => .error .absent
  | _ => .error .absent

theorem typeWithin_succ (p : Program) (k : Nat) (id : InstrId) :
    p.typeWithin (k + 1) (.result id) = p.typeStep (p.typeWithin k) id := rfl

/-- Values that are not results have their types in no steps. -/
theorem typeWithin_of_ne_result (h : ∀ id, v ≠ .result id) (j : Nat) :
    p.typeWithin k v = p.typeWithin j v := by
  cases v with
  | result id => exact absurd rfl (h id)
  | _ => unfold typeWithin; rfl

/-- The type of a result depends on that of one operand at most. -/
theorem typeStep_follows (p : Program) (id : InstrId) :
    (∃ r, ∀ types, p.typeStep types id = r) ∨
      ∃ w, ∃ g : Ty → Ty, ∀ types, p.typeStep types id = (types w).map g := by
  have hid : ∀ r : Except Panic Ty, r = r.map fun t => t := by
    intro r
    cases r <;> rfl
  unfold typeStep
  cases p.instr? id with
  | none => exact Or.inl ⟨_, fun _ => rfl⟩
  | some i =>
    cases i with
    | binary op domain l r => exact Or.inr ⟨l, fun t => t, fun types => hid (types l)⟩
    | negate domain x => exact Or.inr ⟨x, fun t => t, fun types => hid (types x)⟩
    | elementPtr base index => exact Or.inr ⟨base, fun t => t, fun types => hid (types base)⟩
    | load pointer =>
      refine Or.inr ⟨pointer, fun | .pointer elem _ => elem | _ => .void, fun types => ?_⟩
      dsimp only
      cases types pointer with
      | error e => rfl
      | ok t => cases t <;> rfl
    | call callee args =>
      cases callee with
      | none => exact Or.inl ⟨_, fun _ => rfl⟩
      | some f => exact Or.inl ⟨_, fun _ => rfl⟩
    | _ => exact Or.inl ⟨_, fun _ => rfl⟩

theorem map_eq_ok {ε α β : Type} {r : Except ε α} {g : α → β} {b : β} :
    r.map g = .ok b ↔ ∃ a, r = .ok a ∧ g a = b := by
  cases r <;> simp [Except.map]

/-- Operands that were followed to their end are followed to the same end elsewhere. -/
theorem typeStep_mono {types types' : Value → Except Panic Ty}
    (h : ∀ v, types v ≠ .error .cyclic → types' v = types v)
    (hid : p.typeStep types id ≠ .error .cyclic) :
    p.typeStep types' id = p.typeStep types id := by
  rcases typeStep_follows p id with ⟨r, hr⟩ | ⟨w, g, hg⟩
  · rw [hr, hr]
  · have hw : types w ≠ .error .cyclic := by
      intro hw
      rw [hg, hw] at hid
      exact hid rfl
    rw [hg, hg, h w hw]

theorem typeWithin_mono {j : Nat} (hle : k ≤ j) (h : p.typeWithin k v ≠ .error .cyclic) :
    p.typeWithin j v = p.typeWithin k v := by
  induction k generalizing j v with
  | zero =>
    cases v with
    | result id => exact absurd rfl h
    | _ => exact typeWithin_of_ne_result (by simp) 0
  | succ k ih =>
    cases v with
    | result id =>
      obtain ⟨j, rfl⟩ := Nat.exists_eq_add_of_le' (Nat.le_of_add_left_le hle)
      rw [typeWithin_succ] at h ⊢
      exact typeStep_mono (fun _ => ih (Nat.le_of_succ_le_succ hle)) h
    | _ => exact typeWithin_of_ne_result (by simp) (k + 1)

/-! ## Chains of operands -/

/-- The identities of all instructions. -/
def instrIds (p : Program) : List InstrId :=
  p.funcs.zipIdx.flatMap fun f => f.1.blocks.zipIdx.flatMap fun b =>
    b.1.instrs.zipIdx.map fun i => ⟨⟨⟨f.2⟩, b.2⟩, i.2⟩

theorem length_instrIds (p : Program) : p.instrIds.length = p.instrCount := by
  have hsum : ∀ {α : Type} (xs : List α) (f : α → Nat),
      (xs.zipIdx.map fun x => f x.1).sum = (xs.map f).sum := by
    intro α xs f
    have hfst := congrArg (List.map f) (List.zipIdx_map_fst 0 xs)
    rw [List.map_map] at hfst
    exact congrArg List.sum hfst
  simp only [instrIds, instrCount, List.length_flatMap, List.length_map, List.length_zipIdx]
  rw [hsum p.funcs fun f => (f.blocks.zipIdx.map fun b => b.1.instrs.length).sum]
  simp only [hsum _ fun b : Block => b.instrs.length]

theorem mem_instrIds (h : (p.instr? id).isSome) : id ∈ p.instrIds := by
  obtain ⟨i, hi⟩ := Option.isSome_iff_exists.1 h
  obtain ⟨b, hb, hslot⟩ := Option.bind_eq_some_iff.1 hi
  obtain ⟨f, hf, hblock⟩ := Option.bind_eq_some_iff.1 hb
  have hat := Option.join_eq_some_iff.1 hslot
  refine List.mem_flatMap.2 ⟨(f, _), List.mem_zipIdx_iff_getElem?.2 hf, ?_⟩
  refine List.mem_flatMap.2 ⟨(b, _), List.mem_zipIdx_iff_getElem?.2 hblock, ?_⟩
  exact List.mem_map.2 ⟨(some i, _), List.mem_zipIdx_iff_getElem?.2 hat, rfl⟩

/-- A search that takes several steps comes by as many instructions before its last one. -/
theorem exists_chain (h : p.typeWithin (k + 1) (.result id) ≠ .error .cyclic)
    (hnot : p.typeWithin k (.result id) = .error .cyclic) :
    ∃ ids : List InstrId, ids.length = k ∧ ids.Nodup ∧
      ∀ i ∈ ids, (p.instr? i).isSome ∧ p.typeWithin (k + 1) (.result i) ≠ .error .cyclic := by
  induction k generalizing id with
  | zero => exact ⟨[], rfl, List.nodup_nil, by simp⟩
  | succ k ih =>
    have hsome : (p.instr? id).isSome := by
      cases hi : p.instr? id with
      | none => rw [typeWithin_succ, typeStep, hi] at hnot; cases hnot
      | some i => rfl
    rw [typeWithin_succ] at hnot
    rcases typeStep_follows p id with ⟨r, hr⟩ | ⟨w, g, hg⟩
    · exact absurd ((typeWithin_succ p (k + 1) id).trans ((hr _).trans ((hr _).symm.trans hnot))) h
    · have hlate : p.typeWithin (k + 1) w ≠ .error .cyclic := by
        intro hw
        rw [typeWithin_succ, hg, hw] at h
        exact h rfl
      have hearly : p.typeWithin k w = .error .cyclic := by
        rw [hg] at hnot
        cases hw : p.typeWithin k w with
        | ok t => rw [hw] at hnot; cases hnot
        | error e => rw [hw] at hnot; exact hnot
      cases w with
      | result next =>
        obtain ⟨ids, hlength, hnodup, hids⟩ := ih hlate hearly
        refine ⟨id :: ids, by rw [List.length_cons, hlength], List.nodup_cons.2 ⟨?_, hnodup⟩, ?_⟩
        · exact fun hmem => (hids id hmem).2 hnot
        · refine List.forall_mem_cons.2 ⟨⟨hsome, h⟩, fun i hi => ⟨(hids i hi).1, ?_⟩⟩
          rw [typeWithin_mono (Nat.le_succ _) (hids i hi).2]
          exact (hids i hi).2
      | _ => exact absurd ((typeWithin_of_ne_result (by simp) _).trans hearly) hlate

/-- A search that ends at all ends within the bound. -/
theorem typeOf_eq_typeWithin (h : p.typeWithin k v ≠ .error .cyclic) :
    p.typeOf v = p.typeWithin k v := by
  induction k with
  | zero => exact typeWithin_mono (Nat.zero_le _) h
  | succ k ih =>
    by_cases hearly : p.typeWithin k v = .error .cyclic
    · cases v with
      | result id =>
        obtain ⟨ids, hlength, hnodup, hids⟩ := exists_chain h hearly
        have hsub : ids ⊆ p.instrIds := fun i hi => mem_instrIds (hids i hi).1
        have hle := (List.subperm_of_subset hnodup hsub).length_le
        rw [hlength, length_instrIds] at hle
        exact typeWithin_mono (Nat.succ_le_succ hle) h
      | _ => exact absurd ((typeWithin_of_ne_result (by simp) _).trans hearly) h
    · rw [ih hearly, typeWithin_mono (Nat.le_succ k) hearly]

theorem typeOf_of_typeWithin (h : p.typeWithin k v = .ok t) : p.typeOf v = .ok t := by
  rw [typeOf_eq_typeWithin (k := k) (by simp [h]), h]

theorem typeOf_result_iff : p.typeOf (.result id) = .ok t ↔ p.typeStep p.typeOf id = .ok t := by
  constructor
  · intro h
    have hstep : p.typeStep (p.typeWithin p.instrCount) id = .ok t := h
    have hends : p.typeStep (p.typeWithin p.instrCount) id ≠ .error .cyclic := by simp [hstep]
    rw [typeStep_mono (fun _ => typeOf_eq_typeWithin) hends, hstep]
  · intro h
    exact typeOf_of_typeWithin (k := p.instrCount + 2) h

/-! ## Types of results -/

theorem typeOf_param {i : ParamId} {q : Param} (h : p.param? i = some q) :
    p.typeOf (.param i) = .ok q.type := by
  unfold typeOf typeWithin
  rw [h]

theorem typeOf_binary {op : BinaryOp} {l r : Value}
    (hi : p.instr? id = some (.binary op domain l r)) (hl : p.typeOf l = .ok t) :
    p.typeOf (.result id) = .ok t :=
  typeOf_result_iff.2 (by rw [typeStep, hi]; exact hl)

theorem typeOf_compare {pred : Predicate} {l r : Value}
    (hi : p.instr? id = some (.compare pred domain l r)) : p.typeOf (.result id) = .ok .bool :=
  typeOf_result_iff.2 (by rw [typeStep, hi])

theorem typeOf_negate {x : Value} (hi : p.instr? id = some (.negate domain x))
    (hx : p.typeOf x = .ok t) : p.typeOf (.result id) = .ok t :=
  typeOf_result_iff.2 (by rw [typeStep, hi]; exact hx)

theorem typeOf_convert {x : Value} {source target : Domain}
    (hi : p.instr? id = some (.convert x source t target)) : p.typeOf (.result id) = .ok t :=
  typeOf_result_iff.2 (by rw [typeStep, hi])

theorem typeOf_load {pointer : Value} {space : Space} (hi : p.instr? id = some (.load pointer))
    (hpointer : p.typeOf pointer = .ok (.pointer t space)) : p.typeOf (.result id) = .ok t :=
  typeOf_result_iff.2 (by rw [typeStep, hi]; dsimp only; rw [hpointer]; rfl)

theorem typeOf_elementPtr {base index : Value} (hi : p.instr? id = some (.elementPtr base index))
    (hbase : p.typeOf base = .ok t) : p.typeOf (.result id) = .ok t :=
  typeOf_result_iff.2 (by rw [typeStep, hi]; exact hbase)

theorem typeOf_localVar {name : Text} {elem : Ty}
    (hi : p.instr? id = some (.localVar name elem)) :
    p.typeOf (.result id) = .ok (.pointer elem .function) :=
  typeOf_result_iff.2 (by rw [typeStep, hi])

theorem typeOf_call {f : FuncId} {g : Func} {args : List Value}
    (hi : p.instr? id = some (.call (some f) args)) (hf : p.func? f = some g) :
    p.typeOf (.result id) = .ok g.resultType :=
  typeOf_result_iff.2 (by rw [typeStep, hi]; dsimp only; rw [hf])

end Elementwise.IR.Program
