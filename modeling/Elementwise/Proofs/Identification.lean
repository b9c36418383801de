import Elementwise.Proofs.Filing

/-!
# Types and constants told apart by their ids

The record of types and constants is asked any questions, one after the other, and some of them
fail. Whatever was asked before, a type has the id of the type that is declared for it and of no
other, and so has a constant: its id stands for its declared type and its literal. To ask again
changes nothing.
-/
namespace Elementwise.Spirv
open IR Gen Relation

/-! ## Questions -/

/-- A question to the record. -/
inductive Query where
  | normalize (t : Ty)
  | storageOf (space : Space)
  | type (t : Ty)
  | pointer (storage pointee : UInt32)
  | stridedPointer (elem : Ty) (space : Space)
  | vector (component count : UInt32)
  | array (elem stride : UInt32)
  | struct (members : List UInt32)
  | function (result : UInt32) (params : List UInt32)
  | size (t : Ty)
  | constant (c : Constant)
  deriving DecidableEq, Repr

/-- The state after a question. -/
def Query.pose : Query → Generator → Generator
  | normalize t => after (Gen.normalize t)
  | storageOf space => after (storageClassOf space)
  | type t => after (typeId t)
  | pointer storage pointee => after (pointerId storage pointee)
  | stridedPointer elem space => after (stridedPointerId elem space)
  | vector component count => after (vectorId component count)
  | array elem stride => after (runtimeArrayId elem stride)
  | struct members => after (structId members)
  | function result params => after (functionTypeId result params)
  | size t => after (byteSize t)
  | constant c => after (constantId c)

def Generator.asked (s : Generator) (queries : List Query) : Generator :=
  queries.foldl (fun s q => q.pose s) s

/-! ## Literals -/

/-- The pattern of a constant. A float of a width that is not supported holds a 64-bit pattern,
which is rounded. -/
def constantPattern (c : Constant) : Nat :=
  match c.type with
  | .float w => if hasFloatWidth w then c.bits.toNat else (Ieee.toSingle c.bits).toNat
  | _ => c.bits.toNat

/-- The truth value, or the pattern modulo the declared width. -/
def constantLiteral (c : Constant) : Nat :=
  match normalized c.type with
  | .int w => constantPattern c % 2 ^ w.toNat
  | .float w => constantPattern c % 2 ^ w.toNat
  | _ => if c.bits = 0 then 0 else 1

/-- The words of a literal, the low one first. -/
def literalWords (width : UInt32) (literal : Nat) : List UInt32 :=
  if width = 64 then [UInt32.ofNat literal, UInt32.ofNat (literal / 2 ^ 32)]
  else [UInt32.ofNat literal]

/-- The instruction that declares a constant by its literal. -/
def literalInstr (type id : UInt32) (c : Constant) : Instruction :=
  match normalized c.type with
  | .bool => ⟨if constantLiteral c = 1 then .constantTrue else .constantFalse, [type, id]⟩
  | t => ⟨.constant, type :: id :: literalWords (numberWidth t) (constantLiteral c)⟩

variable {s t s' : Generator} {id : UInt32} {w : UInt32}

theorem Query.files (q : Query) : ReflTransGen Files s (q.pose s) := by
  cases q with
  | normalize t => exact (asks_normalize t).files
  | storageOf space => exact (asks_storageClassOf space).files
  | type t => exact (asks_typeId t).files
  | pointer storage pointee => exact (asks_pointerId storage pointee).files
  | stridedPointer elem space => exact (asks_stridedPointerId elem space).files
  | vector component count => exact (asks_internAs (d := .vector component count) (by simp)).files
  | array elem stride => exact (asks_runtimeArrayId elem stride).files
  | struct members => exact .single (.struct _)
  | function result params =>
    exact (asks_internAs (d := .function (result :: params)) (by simp)).files
  | size t => exact (asks_byteSize t).files
  | constant c => exact (asks_constantId c).files

theorem files_asked (queries : List Query) : ReflTransGen Files s (s.asked queries) := by
  induction queries generalizing s with
  | nil => exact .refl
  | cons q rest ih => exact q.files.trans ih

/-! ## Types on record -/

/-- The id on record for a type whose widths are supported. -/
def Interned.type? (n : Interned) : Ty → Option UInt32
  | .missing => none
  | .pointer elem space =>
    match n.type? elem, storageClass space with
    | some pointee, .ok storage => (Declaration.pointer pointee storage).id? n
    | _, _ => none
  | t => (Declaration.scalar t).id? n

theorem Interned.type?_pointer {n : Interned} {elem : Ty} {space : Space} :
    n.type? (.pointer elem space) = some id ↔
      ∃ pointee storage, n.type? elem = some pointee ∧ storageClass space = .ok storage ∧
        (Declaration.pointer pointee storage).id? n = some id := by
  rw [type?]
  cases n.type? elem <;> cases storageClass space <;> simp

theorem Generator.Keeps.type? (h : s.Keeps s') {u : Ty} (hu : s.interned.type? u = some id) :
    s'.interned.type? u = some id := by
  induction u generalizing id with
  | missing => cases hu
  | pointer elem space ih =>
    obtain ⟨pointee, storage, helem, hstorage, hpointer⟩ := Interned.type?_pointer.1 hu
    exact Interned.type?_pointer.2 ⟨pointee, storage, ih helem, hstorage, h.recorded hpointer⟩
  | _ => exact h.recorded hu

/-- An id on record is of one type. -/
theorem Generator.Filed.type?_injective (h : s.Filed) (hbound : s.assembly.allocated < 2 ^ 32 - 1)
    {u v : Ty} (hu : s.interned.type? u = some id) (hv : s.interned.type? v = some id) : u = v := by
  have hdeclared : ∀ {u : Ty} {id : UInt32}, s.interned.type? u = some id →
      (Declaration.scalar u).id? s.interned = some id ∨
        ∃ elem space pointee storage, u = .pointer elem space ∧
          s.interned.type? elem = some pointee ∧ storageClass space = .ok storage ∧
          (Declaration.pointer pointee storage).id? s.interned = some id := by
    intro u id hu
    cases u with
    | missing => cases hu
    | pointer elem space =>
      obtain ⟨pointee, storage, h⟩ := Interned.type?_pointer.1 hu
      exact Or.inr ⟨elem, space, pointee, storage, rfl, h⟩
    | _ => exact Or.inl hu
  have hscalar : ∀ {u v : Ty} {id : UInt32}, (Declaration.scalar u).id? s.interned = some id →
      s.interned.type? v = some id → u = v := by
    intro u v id hu hv
    rcases hdeclared hv with hv | ⟨_, _, _, _, -, -, -, hv⟩
    · cases h.apart hbound hu hv
      rfl
    · cases h.apart hbound hu hv
  induction u generalizing v id with
  | missing => cases hu
  | pointer elem space ih =>
    obtain ⟨pointee, storage, helem, hstorage, hpointer⟩ := Interned.type?_pointer.1 hu
    rcases hdeclared hv with hv | ⟨elem', space', pointee', storage', rfl, helem', hstorage', hv⟩
    · cases h.apart hbound hpointer hv
    · cases h.apart hbound hpointer hv
      rw [ih helem helem', storageClass_inj hstorage hstorage']
  | _ => exact hscalar hu hv

theorem declaredId_type? {u : Ty} (h : declaredId u s = .ok id s') :
    s'.interned.type? u = some id := by
  induction u generalizing id s' with
  | missing => exact absurd h fail_ok.1
  | pointer elem space ih =>
    simp only [declaredId, bind_ok, storageClassOf_ok] at h
    obtain ⟨pointee, s₁, helem, storage, _, ⟨hstorage, rfl⟩, hpointer⟩ := h
    have hkeeps := keeps_of_files ((asks_pointerId storage pointee).ok hpointer)
    exact Interned.type?_pointer.2
      ⟨pointee, storage, hkeeps.type? (ih helem), hstorage, pointerId_recorded hpointer⟩
  | _ => exact scalarId_recorded h

theorem declaredId_of_type? {u : Ty} (h : s.interned.type? u = some id) :
    declaredId u s = .ok id s := by
  induction u generalizing id with
  | missing => cases h
  | pointer elem space ih =>
    obtain ⟨pointee, storage, helem, hstorage, hpointer⟩ := Interned.type?_pointer.1 h
    simp only [declaredId, bind_ok, storageClassOf_ok]
    exact ⟨pointee, s, ih helem, storage, s, ⟨hstorage, rfl⟩, intern_of_recorded hpointer⟩
  | _ => exact intern_of_recorded (d := .scalar _) h

/-- A type is on record and, if another is declared for it, reported. -/
structure Generator.Knows (s : Generator) (u : Ty) (id : UInt32) : Prop where
  declared : s.interned.type? (normalized u) = some id
  reported : ∀ v ∈ unsupportedPart? u, v ∈ s.interned.unsupported

namespace Generator.Knows

variable {u v : Ty}

theorem mono (h : s.Knows u id) (hkeeps : s.Keeps s') : s'.Knows u id :=
  ⟨hkeeps.type? h.declared, fun v hv => hkeeps.reported (h.reported v hv)⟩

theorem normalize_eq (h : s.Knows u id) : Gen.normalize u s = .ok (normalized u) s := by
  unfold Gen.normalize
  cases hpart : unsupportedPart? u with
  | none => rfl
  | some scalar =>
    have hmem := h.reported scalar hpart
    simp only [bind_ok, modifyInterned_ok, pure_ok]
    refine ⟨(), s, ?_, trivial, rfl⟩
    simp [Interned.report, hmem]

theorem typeId_eq (h : s.Knows u id) : typeId u s = .ok id s :=
  bind_ok.2 ⟨_, _, h.normalize_eq, declaredId_of_type? h.declared⟩

end Generator.Knows

theorem normalize_run {u v : Ty} (h : Gen.normalize u s = .ok v s') :
    v = normalized u ∧ ∀ part ∈ unsupportedPart? u, part ∈ s'.interned.unsupported := by
  cases hpart : unsupportedPart? u with
  | none =>
    simp only [Gen.normalize, hpart, pure_ok] at h
    exact ⟨h.1.symm, by simp⟩
  | some scalar =>
    simp only [Gen.normalize, hpart, bind_ok, modifyInterned_ok, pure_ok] at h
    obtain ⟨_, _, rfl, rfl, rfl⟩ := h
    refine ⟨rfl, ?_⟩
    intro part hmem
    cases hmem
    dsimp only [Interned.report]
    split
    next hc => simpa using hc
    next => simp

theorem knows_of_declaredId {u v : Ty} (hnormalize : Gen.normalize u s = .ok v t)
    (h : declaredId v t = .ok id s') : v = normalized u ∧ s'.Knows u id := by
  obtain ⟨rfl, hreported⟩ := normalize_run hnormalize
  have hkeeps := keeps_of_files ((asks_declaredId _).ok h)
  exact ⟨rfl, declaredId_type? h, fun part hmem => hkeeps.reported (hreported part hmem)⟩

theorem typeId_knows {u : Ty} (h : typeId u s = .ok id s') : s'.Knows u id := by
  obtain ⟨v, t, hnormalize, hdeclared⟩ := bind_ok.1 h
  exact (knows_of_declaredId hnormalize hdeclared).2

/-! ## Constants on record -/

/-- Supported widths are those of one or two words. -/
theorem width_cases {u : Ty} (h : normalized u = .int w ∨ normalized u = .float w) :
    w = 8 ∨ w = 16 ∨ w = 32 ∨ w = 64 := by
  rcases h with h | h
  · have hw := hasIntWidth_of_normalized h
    simp only [hasIntWidth, Bool.or_eq_true, decide_eq_true_eq] at hw
    tauto
  · have hw := hasFloatWidth_of_normalized h
    simp only [hasFloatWidth, Bool.or_eq_true, decide_eq_true_eq] at hw
    tauto

theorem toNat_masked (hw : w = 8 ∨ w = 16 ∨ w = 32 ∨ w = 64) (bits : UInt64) :
    (if w < 64 then bits &&& (((1 : UInt64) <<< w.toUInt64) - 1) else bits).toNat =
      bits.toNat % 2 ^ w.toNat := by
  rcases hw with rfl | rfl | rfl | rfl
  · exact Nat.and_two_pow_sub_one_eq_mod bits.toNat 8
  · exact Nat.and_two_pow_sub_one_eq_mod bits.toNat 16
  · exact Nat.and_two_pow_sub_one_eq_mod bits.toNat 32
  · exact (Nat.mod_eq_of_lt bits.toNat_lt).symm

/-- The declared bits of a number are its literal. -/
theorem toNat_declaredBits {c : Constant}
    (h : normalized c.type = .int w ∨ normalized c.type = .float w) :
    (declaredBits c w).toNat = constantPattern c % 2 ^ w.toNat := by
  have hpattern : (match c.type with
      | .float v => if v = w then c.bits else (Ieee.toSingle c.bits).toUInt64
      | _ => c.bits).toNat = constantPattern c := by
    unfold constantPattern
    cases htype : c.type with
    | float v =>
      rw [htype] at h
      by_cases hv : hasFloatWidth v = true
      · obtain rfl : v = w := by simpa [normalized, hv] using h
        simp [hv]
      · have hw : w = 32 := by
          have : Ty.float 32 = .float w := by simpa [normalized, hv] using h
          cases this
          rfl
        have hvw : v ≠ w := by
          rintro rfl
          exact hv (by rw [hw]; rfl)
        simp [hv, hvw]
    | _ => rfl
  rw [← hpattern]
  exact toNat_masked (width_cases h) _

theorem toNat_constantBits (c : Constant) :
    (constantBits c (normalized c.type)).toNat = constantLiteral c := by
  unfold constantLiteral
  cases htype : normalized c.type with
  | int w => exact toNat_declaredBits (Or.inl htype)
  | float w => exact toNat_declaredBits (Or.inr htype)
  | _ =>
    simp only [constantBits]
    by_cases hbits : c.bits = 0 <;> simp [hbits]

theorem literalWords_toNat (w : UInt32) (bits : UInt64) :
    literalWords w bits.toNat = if w = 64 then Build.doubleWords bits else [bits.toUInt32] := by
  have hhigh : (bits >>> 32).toUInt32 = UInt32.ofNat (bits.toNat / 2 ^ 32) := by
    rw [← UInt32.ofNat_uInt64ToNat, UInt64.toNat_shiftRight]
    exact congrArg UInt32.ofNat (Nat.shiftRight_eq_div_pow bits.toNat 32)
  rw [literalWords, Build.doubleWords, hhigh, UInt32.ofNat_uInt64ToNat]

/-- A constant is declared by its literal. -/
theorem constantInstr?_literal {c : Constant} {type : UInt32} {i : Instruction}
    (h : constantInstr? type id (constantBits c (normalized c.type)) (normalized c.type) = some i) :
    i = literalInstr type id c := by
  have hbits := toNat_constantBits c
  unfold literalInstr
  rw [← hbits]
  generalize htype : normalized c.type = u at h
  cases u with
  | bool =>
    cases h
    simp only [constantBits]
    by_cases hzero : c.bits = 0 <;> simp [hzero]
  | int w | float w =>
    cases h
    simp only [numberWidth, literalWords_toNat]
  | _ => cases h

/-- A constant is on record. -/
structure Generator.KnowsConstant (s : Generator) (c : Constant) (type id : UInt32) : Prop where
  typed : s.Knows c.type type
  instr : ∃ i, constantInstr? type id (constantBits c (normalized c.type)) (normalized c.type) =
    some i
  recorded : (Declaration.constant type (constantBits c (normalized c.type))).id? s.interned =
    some id

namespace Generator.KnowsConstant

variable {c : Constant} {type : UInt32}

theorem mono (h : s.KnowsConstant c type id) (hkeeps : s.Keeps s') : s'.KnowsConstant c type id :=
  ⟨h.typed.mono hkeeps, h.instr, hkeeps.recorded h.recorded⟩

theorem constantId_eq (h : s.KnowsConstant c type id) : constantId c s = .ok id s := by
  refine bind_ok.2 ⟨_, _, h.typed.normalize_eq, ?_⟩
  refine bind_ok.2 ⟨_, _, declaredId_of_type? h.typed.declared, ?_⟩
  obtain ⟨i, hi⟩ := h.instr
  have hrecorded := h.recorded
  generalize normalized c.type = u at hi hrecorded
  cases u with
  | bool | int w | float w => exact intern_of_recorded (d := .constant type _) hrecorded
  | _ => cases hi

end Generator.KnowsConstant

theorem constantId_knows {c : Constant} (h : constantId c s = .ok id s') :
    ∃ type, s'.KnowsConstant c type id := by
  obtain ⟨u, t, hnormalize, h⟩ := bind_ok.1 h
  obtain ⟨type, t', hdeclared, h⟩ := bind_ok.1 h
  obtain ⟨rfl, hknows⟩ := knows_of_declaredId hnormalize hdeclared
  have hkeeps := keeps_of_files ((asks_constant hdeclared).ok h)
  refine ⟨type, hknows.mono hkeeps, ?_, ?_⟩
  · generalize normalized c.type = u at h
    cases u with
    | bool | int w | float w => exact ⟨_, rfl⟩
    | _ => exact absurd h fail_ok.1
  · generalize normalized c.type = u at h
    cases u with
    | bool | int w | float w => exact id?_of_internAs (d := .constant type _) h
    | _ => exact absurd h fail_ok.1

/-! ## Identification -/

/-- A constant that is on record is declared by its literal. -/
theorem Generator.KnowsConstant.mem_declared {c : Constant} {type : UInt32}
    (h : s.KnowsConstant c type id) (hs : s.Filed) (hbound : s.assembly.allocated < 2 ^ 32 - 1)
    (hopen : s.assembly.finished = false) : literalInstr type id c ∈ s.declared := by
  obtain ⟨u, i, hu, hi, hmem⟩ := hs.written hopen h.recorded
  obtain ⟨j, hj⟩ := h.instr
  have hscalar : (Declaration.scalar (normalized c.type)).id? s.interned = some type := by
    have htype := h.typed.declared
    generalize normalized c.type = v at htype hj
    cases v with
    | bool | int w | float w => exact htype
    | _ => cases hj
  cases hs.apart hbound hu hscalar
  exact constantInstr?_literal hi ▸ hmem

theorem Generator.KnowsConstant.id_eq_iff {c e : Constant} {type type' id' : UInt32}
    (hc : s.KnowsConstant c type id) (he : s.KnowsConstant e type' id') (hs : s.Filed)
    (hbound : s.assembly.allocated < 2 ^ 32 - 1) :
    id = id' ↔ normalized c.type = normalized e.type ∧ constantLiteral c = constantLiteral e := by
  rw [← toNat_constantBits c, ← toNat_constantBits e]
  constructor
  · rintro rfl
    have hsame := hs.apart hbound hc.recorded he.recorded
    simp only [Declaration.constant.injEq] at hsame
    obtain ⟨rfl, hbits⟩ := hsame
    exact ⟨hs.type?_injective hbound hc.typed.declared he.typed.declared, congrArg _ hbits⟩
  · rintro ⟨htype, hbits⟩
    have hc' := hc.typed.declared
    rw [htype, he.typed.declared] at hc'
    obtain rfl := Option.some.inj hc'
    have hrecorded := hc.recorded
    rw [UInt64.toNat_inj.1 hbits, he.recorded] at hrecorded
    exact (Option.some.inj hrecorded).symm

/-- Questions to a new record, one after the other. A type or constant that was asked for has the
same id when it is asked for again, which changes nothing; its id is that of the types and
constants that are declared alike, and of no others; and constants are declared by their
literals. -/
theorem interning_identifies (start : Generator) (hstart : start.interned = {})
    (before between : List Query) :
    (∀ u, normalized (normalized u) = normalized u ∧
      ∀ s, ∃ s', Gen.normalize u s = .ok (normalized u) s') ∧
    (∀ u id s, typeId u (start.asked before) = .ok id s →
      typeId u (s.asked between) = .ok id (s.asked between)) ∧
    (∀ c id s, constantId c (start.asked before) = .ok id s →
      constantId c (s.asked between) = .ok id (s.asked between)) ∧
    (∀ u v id id' s s', typeId u (start.asked before) = .ok id s →
      typeId v (s.asked between) = .ok id' s' → s'.assembly.allocated < 2 ^ 32 - 1 →
      (id = id' ↔ normalized u = normalized v)) ∧
    (∀ c e id id' s s', constantId c (start.asked before) = .ok id s →
      constantId e (s.asked between) = .ok id' s' → s'.assembly.allocated < 2 ^ 32 - 1 →
      (id = id' ↔
        normalized c.type = normalized e.type ∧ constantLiteral c = constantLiteral e)) ∧
    ∀ c id s, constantId c (start.asked before) = .ok id s → s.assembly.allocated < 2 ^ 32 - 1 →
      start.assembly.finished = false → ∃ type, typeId c.type s = .ok type s ∧
        literalInstr type id c ∈ (s.asked between).declared := by
  have hbefore : ReflTransGen Files start (start.asked before) := files_asked before
  have hbetween : ∀ {s : Generator}, ReflTransGen Files s (s.asked between) := files_asked between
  have hfiled := filed_of_files hbefore (.empty hstart)
  refine ⟨?_, ?_, ?_, ?_, ?_, ?_⟩
  · intro u
    refine ⟨normalized_normalized u, fun s => ?_⟩
    unfold Gen.normalize
    cases unsupportedPart? u <;> exact ⟨_, rfl⟩
  · intro u id s h
    exact ((typeId_knows h).mono (keeps_of_files hbetween)).typeId_eq
  · intro c id s h
    obtain ⟨type, hknows⟩ := constantId_knows h
    exact (hknows.mono (keeps_of_files hbetween)).constantId_eq
  · intro u v id id' s s' h h' hbound
    have hlater := hbetween.trans ((asks_typeId v).ok h')
    have hu := (typeId_knows h).mono (keeps_of_files hlater)
    have hv := typeId_knows h'
    have hs' := filed_of_files (((asks_typeId u).ok h).trans hlater) hfiled
    constructor
    · rintro rfl
      exact hs'.type?_injective hbound hu.declared hv.declared
    · intro heq
      exact Option.some.inj (hu.declared.symm.trans (heq ▸ hv.declared))
  · intro c e id id' s s' h h' hbound
    have hlater := hbetween.trans ((asks_constantId e).ok h')
    have hs' := filed_of_files (((asks_constantId c).ok h).trans hlater) hfiled
    obtain ⟨type, hc⟩ := constantId_knows h
    obtain ⟨type', he⟩ := constantId_knows h'
    exact (hc.mono (keeps_of_files hlater)).id_eq_iff he hs' hbound
  · intro c id s h hbound hopen
    obtain ⟨type, hc⟩ := constantId_knows h
    have hrun := (asks_constantId c).ok h
    have hkeeps := keeps_of_files (hbefore.trans hrun)
    refine ⟨type, hc.typed.typeId_eq, (keeps_of_files hbetween).declared ?_⟩
    exact hc.mem_declared (filed_of_files hrun hfiled) hbound (hkeeps.finished.trans hopen)

/-- Integers of 7 and 32 bits are declared alike, and so are one and a half as floats of 80 and of
32 bits; a pointer and a failure stand before them and a structure between them. -/
theorem interning_identifies_narrow :
    let start : Generator := .start ⟨1, 3⟩
    let before := [.type (.pointer (.int 7) .buffer), .type (.pointer .bool ⟨9⟩)]
    let between := [.struct [1, 2], .constant ⟨.int 64, 0x100000002⟩]
    start.interned = {} ∧
      (∃ id id' s s', typeId (.int 7) (start.asked before) = .ok id s ∧
        typeId (.int 32) (s.asked between) = .ok id' s' ∧
        s'.assembly.allocated < 2 ^ 32 - 1 ∧ id = id') ∧
      ∃ id id' s s', constantId ⟨.float 80, 0x3ff8000000000000⟩ (start.asked before) = .ok id s ∧
        constantId ⟨.float 32, 0x3fc00000⟩ (s.asked between) = .ok id' s' ∧
        s'.assembly.allocated < 2 ^ 32 - 1 ∧ id = id' ∧
        ⟨.constant, [4, 5, 0x3fc00000]⟩ ∈ (s.asked between).declared := by
  obtain ⟨-, -, -, htypes, hconstants, hdeclared⟩ := interning_identifies
    (.start ⟨1, 3⟩) rfl [.type (.pointer (.int 7) .buffer), .type (.pointer .bool ⟨9⟩)]
    [.struct [1, 2], .constant ⟨.int 64, 0x100000002⟩]
  refine ⟨rfl, ⟨_, _, _, _, rfl, rfl, by decide, ?_⟩, _, _, _, _, rfl, rfl, by decide, ?_, ?_⟩
  · exact (htypes (.int 7) (.int 32) _ _ _ _ rfl rfl (by decide)).2 rfl
  · exact (hconstants ⟨.float 80, 0x3ff8000000000000⟩ ⟨.float 32, 0x3fc00000⟩ _ _ _ _ rfl rfl
      (by decide)).2 (by decide)
  · obtain ⟨type, htype, hmem⟩ := hdeclared ⟨.float 80, 0x3ff8000000000000⟩ _ _ rfl (by decide) rfl
    cases htype
    exact hmem

end Elementwise.Spirv
