import Elementwise.Proofs.Verification

/-!
# What verification decides

The documented rules are said here of the words of a binary, without reader and checks. The words
of an instruction fill the places that the shape of its opcode gives; functions, blocks and
terminators nest as a grammar says; the other rules compare instructions with one another.
Verification accepts a binary exactly if it obeys these rules.
-/
namespace Elementwise.Spirv

/-! ## Shapes -/

/-- Words fill places for operands; some of them are ids. A text ends with the first word that has
a zero byte, or with the last word of all. -/
inductive Fills : List OperandKind → List UInt32 → List UInt32 → Prop
  | nil : Fills [] [] []
  | id {kinds : List OperandKind} {rest ids : List UInt32} (word : UInt32)
      (h : Fills kinds rest ids) : Fills (.id :: kinds) (word :: rest) (word :: ids)
  | literal {kinds : List OperandKind} {rest ids : List UInt32} (word : UInt32)
      (h : Fills kinds rest ids) : Fills (.literal :: kinds) (word :: rest) ids
  | text {kinds : List OperandKind} {front rest ids : List UInt32} {last : UInt32}
      (hfront : ∀ word ∈ front, 0 ∉ wordBytes word) (hlast : 0 ∈ wordBytes last ∨ rest = [])
      (h : Fills kinds rest ids) : Fills (.text :: kinds) (front ++ last :: rest) ids
  | ids {kinds : List OperandKind} {ids : List UInt32} (words : List UInt32)
      (h : Fills kinds [] ids) : Fills (.ids :: kinds) words (words ++ ids)
  | literals {kinds : List OperandKind} {ids : List UInt32} (words : List UInt32)
      (h : Fills kinds [] ids) : Fills (.literals :: kinds) words ids

/-- An instruction with the id that it defines and the ids that it reads. -/
structure Line where
  instr : Instruction
  result : Option UInt32
  reads : List UInt32
  deriving DecidableEq, Repr

/-- The words of an instruction are, as the shape of its opcode says, a result type, a result and
operands. The result type and the ids among the operands are read. -/
inductive Line.Formed : Line → Prop
  | intro {i : Instruction} {shape : Shape} {type result : Option UInt32}
      {operands ids : List UInt32} (hshape : i.opcode.shape? = some shape)
      (htype : type.isSome = shape.hasResultType) (hresult : result.isSome = shape.hasResult)
      (hwords : i.operands = type.toList ++ (result.toList ++ operands))
      (hfills : Fills shape.operands operands ids) : Formed ⟨i, result, type.toList ++ ids⟩

variable {bound : UInt32} {i : Instruction} {words : List UInt32} {instrs is : List Instruction}

/-- The text at the front of words ends where reading ends it. -/
theorem readText_eq_iff {rest : List UInt32} (hwords : words ≠ []) :
    (readText words).2 = rest ↔ ∃ front last, words = front ++ last :: rest ∧
      (∀ word ∈ front, 0 ∉ wordBytes word) ∧ (0 ∈ wordBytes last ∨ rest = []) := by
  induction words with
  | nil => exact absurd rfl hwords
  | cons w tail ih =>
    rw [readText]
    by_cases hzero : 0 ∈ wordBytes w
    · rw [if_pos (by simpa using hzero)]
      constructor
      · rintro rfl
        exact ⟨[], w, rfl, by simp, Or.inl hzero⟩
      · rintro ⟨front, last, heq, hfront, -⟩
        cases front with
        | nil =>
          cases heq
          rfl
        | cons x front =>
          cases heq
          exact absurd hzero (hfront w List.mem_cons_self)
    · rw [if_neg (by simpa using hzero)]
      dsimp only
      cases tail with
      | nil =>
        rw [readText]
        constructor
        · rintro rfl
          exact ⟨[], w, rfl, by simp, Or.inr rfl⟩
        · rintro ⟨front, last, heq, -⟩
          have hlength := congrArg List.length heq
          simp only [List.length_cons, List.length_nil, List.length_append] at hlength
          exact (List.eq_nil_of_length_eq_zero (by omega)).symm
      | cons x tail =>
        rw [ih (List.cons_ne_nil x tail)]
        constructor
        · rintro ⟨front, last, heq, hfront, hlast⟩
          exact ⟨w :: front, last, by rw [heq, List.cons_append],
            List.forall_mem_cons.2 ⟨hzero, hfront⟩, hlast⟩
        · rintro ⟨front, last, heq, hfront, hlast⟩
          cases front with
          | nil =>
            cases heq
            rcases hlast with h | h
            · exact absurd h hzero
            · cases h
          | cons y front =>
            obtain ⟨-, heq⟩ := List.cons.inj heq
            exact ⟨front, last, heq, (List.forall_mem_cons.1 hfront).2, hlast⟩

theorem map_eq_ok_iff {ε α β : Type} {x : Except ε α} {f : α → β} {b : β} :
    x.map f = .ok b ↔ ∃ a, x = .ok a ∧ f a = b := by
  cases x <;> simp [Except.map]

/-- Operands are read exactly from the words that fill their places. -/
theorem fills_iff (name : String) {kinds : List OperandKind} {ids : List UInt32} :
    Fills kinds words ids ↔
      ∃ operands, readOperands name kinds words = .ok operands ∧ operandIds operands = ids := by
  constructor
  · intro h
    induction h with
    | nil => exact ⟨[], rfl, rfl⟩
    | id w _ ih =>
      obtain ⟨operands, hread, rfl⟩ := ih
      exact ⟨.id w :: operands, by rw [readOperands, hread]; rfl, rfl⟩
    | literal w _ ih =>
      obtain ⟨operands, hread, rfl⟩ := ih
      exact ⟨.literal w :: operands, by rw [readOperands, hread]; rfl, rfl⟩
    | @text kinds front rest ids last hfront hlast _ ih =>
      obtain ⟨operands, hread, rfl⟩ := ih
      have hne : front ++ last :: rest ≠ [] := by simp
      have hrest := (readText_eq_iff hne).2 ⟨front, last, rfl, hfront, hlast⟩
      obtain ⟨w, tail, hcons⟩ := List.exists_cons_of_ne_nil hne
      rw [hcons] at hrest ⊢
      refine ⟨.text (readText (w :: tail)).1 :: operands, ?_, rfl⟩
      rw [readOperands]
      · simp only [hrest, hread]
        rfl
      · exact List.cons_ne_nil w tail
    | ids words _ ih =>
      obtain ⟨operands, hread, rfl⟩ := ih
      exact ⟨words.map .id ++ operands, by rw [readOperands, hread]; rfl, by simp⟩
    | literals words _ ih =>
      obtain ⟨operands, hread, rfl⟩ := ih
      exact ⟨words.map .literal ++ operands, by rw [readOperands, hread]; rfl, by simp⟩
  · rintro ⟨operands, hread, rfl⟩
    fun_induction readOperands name kinds words generalizing operands with
    | case1 =>
      cases hread
      exact .nil
    | case3 kinds w rest ih =>
      obtain ⟨more, hmore, rfl⟩ := map_eq_ok_iff.1 hread
      exact .id w (ih more hmore)
    | case4 kinds w rest ih =>
      obtain ⟨more, hmore, rfl⟩ := map_eq_ok_iff.1 hread
      exact .literal w (ih more hmore)
    | case8 kinds words hwords bytes rest heq ih =>
      obtain ⟨more, hmore, rfl⟩ := map_eq_ok_iff.1 hread
      obtain ⟨front, last, rfl, hfront, hlast⟩ :=
        (readText_eq_iff hwords).1 (congrArg Prod.snd heq)
      exact .text hfront hlast (ih more hmore)
    | case9 kinds words ih =>
      obtain ⟨more, hmore, rfl⟩ := map_eq_ok_iff.1 hread
      rw [operandIds_append, operandIds_map_id]
      exact .ids words (ih more hmore)
    | case10 kinds words ih =>
      obtain ⟨more, hmore, rfl⟩ := map_eq_ok_iff.1 hread
      rw [operandIds_append, operandIds_map_literal, List.nil_append]
      exact .literals words (ih more hmore)
    | _ => cases hread

/-- An optional part is the first word, where it is wanted. -/
theorem readOptional_eq_ok_iff {wanted : Bool} (missing : ShapeError) {rest : List UInt32}
    {part : Option UInt32} :
    readOptional wanted missing words = .ok (part, rest) ↔
      part.isSome = wanted ∧ words = part.toList ++ rest := by
  unfold readOptional
  cases wanted with
  | false =>
    cases part <;> simp
  | true =>
    cases words with
    | nil => cases part <;> simp
    | cons w tail => cases part <;> simp

/-- What is read of an instruction: the shape of its opcode splits its words. -/
theorem Instruction.readAt_eq_ok_iff (offset : Nat) {d : Decoded} :
    i.readAt offset = .ok d ↔ ∃ shape type result rest operands,
      i.opcode.shape? = some shape ∧ type.isSome = shape.hasResultType ∧
      result.isSome = shape.hasResult ∧ i.operands = type.toList ++ (result.toList ++ rest) ∧
      readOperands shape.name shape.operands rest = .ok operands ∧
      d = ⟨offset, i.opcode, shape, i.operands, type, result, operands⟩ := by
  unfold readAt decodeInstr
  cases hshape : i.opcode.shape? with
  | none => simp [throw, throwThe, MonadExceptOf.throw]
  | some shape =>
    simp only [bind, Except.bind]
    constructor
    · intro h
      split at h
      · cases h
      next first hfirst =>
        split at h
        · cases h
        next second hsecond =>
          split at h
          · cases h
          next operands hoperands =>
            cases h
            obtain ⟨htype, hwords⟩ := (readOptional_eq_ok_iff _).1 hfirst
            obtain ⟨hresult, hrest⟩ := (readOptional_eq_ok_iff _).1 hsecond
            exact ⟨shape, first.1, second.1, second.2, operands, rfl, htype, hresult,
              hrest ▸ hwords, hoperands, rfl⟩
    · rintro ⟨_, type, result, rest, operands, heq, htype, hresult, hwords, hoperands, rfl⟩
      cases heq
      have hfirst := (readOptional_eq_ok_iff (.missingResultType shape.name)).2 ⟨htype, hwords⟩
      have hsecond : readOptional shape.hasResult (.missingResult shape.name)
          (result.toList ++ rest) = .ok (result, rest) :=
        (readOptional_eq_ok_iff _).2 ⟨hresult, rfl⟩
      simp only [hfirst, hsecond, hoperands]
      rfl

/-- An instruction is formed exactly if it can be read, and then as what is read. -/
theorem Line.formed_iff {line : Line} :
    line.Formed ↔ line.instr.shaped ∧ line.instr.result? = line.result ∧
      line.instr.reads = line.reads := by
  constructor
  · rintro @⟨i, shape, type, result, rest, ids, hshape, htype, hresult, hwords, hfills⟩
    obtain ⟨operands, hoperands, rfl⟩ := (fills_iff shape.name).1 hfills
    have hread := (Instruction.readAt_eq_ok_iff 0).2
      ⟨shape, type, result, rest, operands, hshape, htype, hresult, hwords, hoperands, rfl⟩
    refine ⟨(Instruction.shaped_iff 0).2 ⟨_, hread⟩, ?_, ?_⟩
    · rw [Instruction.result?, hread]
    · rw [Instruction.reads, hread]
      rfl
  · obtain ⟨i, result, reads⟩ := line
    dsimp only
    rintro ⟨hshaped, rfl, rfl⟩
    obtain ⟨d, hd⟩ := (Instruction.shaped_iff 0).1 hshaped
    obtain ⟨shape, type, result, rest, operands, hshape, htype, hresult, hwords, hoperands, rfl⟩ :=
      (Instruction.readAt_eq_ok_iff 0).1 hd
    have hformed : Line.Formed ⟨i, result, type.toList ++ operandIds operands⟩ :=
      .intro hshape htype hresult hwords ((fills_iff shape.name).2 ⟨operands, hoperands, rfl⟩)
    rw [Instruction.result?, Instruction.reads, hd]
    exact hformed

/-- The line of an instruction. -/
def Line.of (i : Instruction) : Line := ⟨i, i.result?, i.reads⟩

theorem Line.Formed.eq_of {line : Line} (h : line.Formed) : line = .of line.instr := by
  obtain ⟨-, hresult, hreads⟩ := formed_iff.1 h
  rw [of, hresult, hreads]

theorem Line.formed_of : (Line.of i).Formed ↔ i.shaped := by
  simp [formed_iff, of]

/-! ## Nesting -/

/-- What an instruction does to functions and blocks. -/
inductive Role where
  | merge
  | opens
  | closes
  | label
  | terminator
  | parameter
  | plain
  deriving DecidableEq, Repr

def Instruction.role (i : Instruction) : Role :=
  if i.isMerge then .merge
  else if i.opcode = .func then .opens
  else if i.opcode = .functionEnd then .closes
  else if i.opcode = .label then .label
  else if isTerminatorOp i.opcode then .terminator
  else if i.opcode = .functionParameter then .parameter
  else .plain

/-- What stands between the header of a function and its end: parameters and blocks. A block is a
label, instructions and a terminator; only there may a merge block be named. -/
inductive FunctionBody : List Instruction → Prop
  | nil : FunctionBody []
  | parameter {i : Instruction} {rest : List Instruction} (hi : i.role = .parameter)
      (h : FunctionBody rest) : FunctionBody (i :: rest)
  | block {label terminator : Instruction} {inner rest : List Instruction}
      (hlabel : label.role = .label)
      (hinner : ∀ i ∈ inner, i.role = .plain ∨ i.role = .merge)
      (hterminator : terminator.role = .terminator) (h : FunctionBody rest) :
      FunctionBody (label :: (inner ++ terminator :: rest))

/-- Functions that are closed, and instructions outside of them. -/
inductive Nested : List Instruction → Prop
  | nil : Nested []
  | plain {i : Instruction} {rest : List Instruction} (hi : i.role = .plain) (h : Nested rest) :
      Nested (i :: rest)
  | function {header close : Instruction} {body rest : List Instruction}
      (hheader : header.role = .opens) (hbody : FunctionBody body)
      (hclose : close.role = .closes) (h : Nested rest) :
      Nested (header :: (body ++ close :: rest))

namespace Scope

theorem step_eq (scope : Scope) (i : Instruction) :
    scope.step i = match i.role, scope with
      | .merge, block => some block
      | .opens, outside => some between
      | .closes, between => some outside
      | .label, between => some block
      | .terminator, block => some between
      | .parameter, between => some between
      | .plain, outside => some outside
      | .plain, block => some block
      | _, _ => none := by
  unfold step Instruction.role
  split_ifs <;> cases scope <;> simp_all

theorem run_inner {inner : List Instruction}
    (h : ∀ i ∈ inner, i.role = .plain ∨ i.role = .merge) : block.run inner = some block := by
  induction inner with
  | nil => rfl
  | cons i rest ih =>
    obtain ⟨hi, hrest⟩ := List.forall_mem_cons.1 h
    have hstep : block.step i = some block := by
      rcases hi with hi | hi <;> rw [step_eq, hi]
    rw [run, hstep]
    exact ih hrest

theorem run_body {body : List Instruction} (h : FunctionBody body) :
    between.run body = some between := by
  induction h with
  | nil => rfl
  | parameter hi _ ih =>
    rw [run, step_eq, hi]
    exact ih
  | block hlabel hinner hterminator _ ih =>
    rw [run, step_eq, hlabel]
    change block.run _ = _
    rw [run_append, run_inner hinner]
    change block.run _ = _
    rw [run, step_eq, hterminator]
    exact ih

theorem run_nested (h : Nested is) : outside.run is = some outside := by
  induction h with
  | nil => rfl
  | plain hi _ ih =>
    rw [run, step_eq, hi]
    exact ih
  | function hheader hbody hclose _ ih =>
    rw [run, step_eq, hheader]
    change between.run _ = _
    rw [run_append, run_body hbody]
    change between.run _ = _
    rw [run, step_eq, hclose]
    exact ih

/-- The rest of a function and what follows it. -/
def Closes (is : List Instruction) : Prop :=
  ∃ body close rest, is = body ++ close :: rest ∧ FunctionBody body ∧ close.role = .closes ∧
    Nested rest

/-- The rest of a block, of its function and what follows. -/
def Ends (is : List Instruction) : Prop :=
  ∃ inner terminator rest, is = inner ++ terminator :: rest ∧
    (∀ i ∈ inner, i.role = .plain ∨ i.role = .merge) ∧ terminator.role = .terminator ∧
    Closes rest

/-- A run that ends outside passes instructions that nest, from each of the three scopes. -/
theorem nested_of_run (is : List Instruction) :
    (outside.run is = some outside → Nested is) ∧ (between.run is = some outside → Closes is) ∧
      (block.run is = some outside → Ends is) := by
  induction is with
  | nil => exact ⟨fun _ => .nil, nofun, nofun⟩
  | cons i rest ih =>
    obtain ⟨houtside, hbetween, hblock⟩ := ih
    simp only [run, step_eq]
    refine ⟨?_, ?_, ?_⟩
    · cases hi : i.role <;> simp only [Option.bind_none, Option.bind_some, reduceCtorEq,
        false_implies]
      case opens =>
        intro h
        obtain ⟨body, close, after, rfl, hbody, hclose, hafter⟩ := hbetween h
        exact .function hi hbody hclose hafter
      case plain => exact fun h => .plain hi (houtside h)
    · cases hi : i.role <;> simp only [Option.bind_none, Option.bind_some, reduceCtorEq,
        false_implies]
      case closes => exact fun h => ⟨[], i, rest, rfl, .nil, hi, houtside h⟩
      case label =>
        intro h
        obtain ⟨inner, terminator, after, rfl, hinner, hterminator, body, close, last, rfl, hbody,
          hclose, hlast⟩ := hblock h
        exact ⟨_, close, last, by simp, .block hi hinner hterminator hbody, hclose, hlast⟩
      case parameter =>
        intro h
        obtain ⟨body, close, last, rfl, hbody, hclose, hlast⟩ := hbetween h
        exact ⟨i :: body, close, last, rfl, .parameter hi hbody, hclose, hlast⟩
    · have hinside : i.role = .plain ∨ i.role = .merge → block.run rest = some outside →
          Ends (i :: rest) := by
        intro hi h
        obtain ⟨inner, terminator, after, rfl, hinner, hend⟩ := hblock h
        exact ⟨i :: inner, terminator, after, rfl, List.forall_mem_cons.2 ⟨hi, hinner⟩, hend⟩
      cases hi : i.role <;> simp only [Option.bind_none, Option.bind_some, reduceCtorEq,
        false_implies]
      case merge => exact hinside (Or.inr hi)
      case plain => exact hinside (Or.inl hi)
      case terminator => exact fun h => ⟨[], i, rest, rfl, by simp, hi, hbetween h⟩

theorem run_eq_outside_iff : outside.run is = some outside ↔ Nested is :=
  ⟨(nested_of_run is).1, run_nested⟩

end Scope

/-! ## The rules -/

/-- The rules for the instructions of a binary with the given bound. -/
structure Accepted (bound : UInt32) (lines : List Line) : Prop where
  fits : ∀ l ∈ lines, l.instr.fits
  formed : ∀ l ∈ lines, l.Formed
  nonzero : ∀ l ∈ lines, l.result ≠ some 0
  unique : lines.Pairwise fun l m => ∀ id, l.result = some id → m.result ≠ some id
  /-- The bound is one past the largest result, or one past zero if there is none. -/
  bound : ∃ top, bound = top + 1 ∧ (∀ l ∈ lines, ∀ id, l.result = some id → id ≤ top) ∧
    ((∃ l ∈ lines, l.result = some top) ∨ top = 0 ∧ ∀ l ∈ lines, l.result = none)
  ordered : lines.Pairwise fun l m =>
    ∀ s t, l.instr.home? = some s → m.instr.home? = some t → s.code ≤ t.code
  memoryModel : lines.countP (fun l => l.instr.opcode = .memoryModel) = 1
  /-- What is read is defined, and for types and functions before, if not as label or function. -/
  reads : ∀ (k : Nat) (l : Line), lines[k]? = some l → ∀ id ∈ l.reads,
    ∃ (j : Nat) (m : Line), lines[j]? = some m ∧
    m.result = some id ∧ (l.instr.home? = some .types ∨ l.instr.home? = some .functions →
      j < k ∨ m.instr.opcode = .label ∨ m.instr.opcode = .func)
  merges : (mergeIds (lines.map Line.instr)).Nodup
  nested : Nested (lines.map Line.instr)

theorem preamble_le_home {s : Section} (h : i.home? = some s) : Section.preamble.code ≤ s.code := by
  have hrows : ∀ row ∈ Opcode.shapes, Section.preamble.code ≤ row.2.home.code := by decide
  unfold Instruction.home? Opcode.home? at h
  split at h
  · cases h
    decide
  · obtain ⟨shape, hshape, rfl⟩ := Option.map_eq_some_iff.1 h
    exact hrows _ (mem_of_lookup hshape)

/-- Reading in time, said by positions. -/
theorem forall_readsInTime_iff (hnodup : (resultIds instrs).Nodup) :
    (∀ pre i post, instrs = pre ++ i :: post → i.ReadsInTime instrs pre) ↔
      ∀ (k : Nat) (i : Instruction), instrs[k]? = some i → ∀ id ∈ i.reads,
        ∃ (j : Nat) (m : Instruction), instrs[j]? = some m ∧ m.result? = some id ∧
          (i.home? = some .types ∨ i.home? = some .functions →
            j < k ∨ m.opcode = .label ∨ m.opcode = .func) := by
  constructor
  · intro h k i hi id hid
    obtain ⟨hlt, hget⟩ := List.getElem?_eq_some_iff.1 hi
    have hsplit : instrs = instrs.take k ++ i :: instrs.drop (k + 1) := by
      rw [← hget, ← List.drop_eq_getElem_cons hlt, List.take_append_drop]
    obtain ⟨hdefined, htime⟩ := h _ i _ hsplit id hid
    by_cases hbefore : id ∈ resultIds (instrs.take k)
    · obtain ⟨m, hm, hresult⟩ := mem_resultIds.1 hbefore
      obtain ⟨j, hj⟩ := List.mem_iff_getElem?.1 hm
      obtain ⟨hjk, -⟩ := List.getElem?_eq_some_iff.1 hj
      have hlt' : j < k := Nat.lt_of_lt_of_le hjk (List.length_take_le k instrs)
      rw [List.getElem?_take_of_lt hlt'] at hj
      exact ⟨j, m, hj, hresult, fun _ => Or.inl hlt'⟩
    · obtain ⟨m, hm, hresult⟩ := mem_resultIds.1 hdefined
      obtain ⟨j, hj⟩ := List.mem_iff_getElem?.1 hm
      refine ⟨j, m, hj, hresult, fun hhome => Or.inr ?_⟩
      obtain ⟨m', hm', hresult'⟩ := mem_resultIds.1 ((htime hhome).resolve_left hbefore)
      obtain ⟨hm', hop⟩ := List.mem_filter.1 hm'
      cases eq_of_result hnodup hm hm' hresult hresult'
      simpa using hop
  · rintro h pre i post rfl id hid
    obtain ⟨j, m, hj, hresult, htime⟩ := h pre.length i (by simp) id hid
    have hm := List.mem_iff_getElem?.2 ⟨j, hj⟩
    refine ⟨mem_resultIds.2 ⟨m, hm, hresult⟩, fun hhome => (htime hhome).imp ?_ ?_⟩
    · intro hlt
      rw [List.getElem?_append_left hlt] at hj
      exact mem_resultIds.2 ⟨m, List.mem_iff_getElem?.2 ⟨j, hj⟩, hresult⟩
    · intro hop
      exact mem_resultIds.2 ⟨m, List.mem_filter.2 ⟨hm, by simpa using hop⟩, hresult⟩

theorem exists_top_iff (hzero : 0 ∉ resultIds instrs) :
    (∃ top, bound = top + 1 ∧ (∀ i ∈ instrs, ∀ id, i.result? = some id → id ≤ top) ∧
      ((∃ i ∈ instrs, i.result? = some top) ∨ top = 0 ∧ ∀ i ∈ instrs, i.result? = none)) ↔
    (∀ id ∈ resultIds instrs, id ≤ bound - 1) ∧
      (bound - 1 = 0 ∨ bound - 1 ∈ resultIds instrs) := by
  constructor
  · rintro ⟨top, rfl, hle, htop⟩
    rw [UInt32.add_sub_cancel]
    refine ⟨fun id hid => ?_, ?_⟩
    · obtain ⟨i, hi, hresult⟩ := mem_resultIds.1 hid
      exact hle i hi id hresult
    · rcases htop with ⟨i, hi, hresult⟩ | ⟨rfl, -⟩
      · exact Or.inr (mem_resultIds.2 ⟨i, hi, hresult⟩)
      · exact Or.inl rfl
  · rintro ⟨hle, htop⟩
    refine ⟨bound - 1, by simp, fun i hi id hresult => hle id (mem_resultIds.2 ⟨i, hi, hresult⟩), ?_⟩
    rcases htop with hbound | hmem
    · refine Or.inr ⟨hbound, fun i hi => Option.eq_none_iff_forall_not_mem.2 fun id hresult => ?_⟩
      have hid : id ∈ resultIds instrs := mem_resultIds.2 ⟨i, hi, hresult⟩
      have hle' := hle id hid
      rw [hbound] at hle'
      have hid0 : id = 0 := UInt32.le_antisymm hle' (by simp)
      exact hzero (hid0 ▸ hid)
    · exact Or.inl (mem_resultIds.1 hmem)

/-- The rules for lines are the rules for their instructions. -/
theorem accepted_map_of_iff : Accepted bound (instrs.map Line.of) ↔ Legal bound instrs := by
  have hinstrs : (instrs.map Line.of).map Line.instr = instrs := by
    rw [List.map_map]
    exact List.map_id instrs
  have hunique : ((instrs.map Line.of).Pairwise fun l m => ∀ id, l.result = some id →
      m.result ≠ some id) ↔ (resultIds instrs).Nodup := by
    rw [List.pairwise_map, resultIds, List.Nodup, List.pairwise_filterMap]
    refine List.Pairwise.iff fun {i j} => ⟨fun h id hid id' hid' heq => ?_, fun h id hid hid' => ?_⟩
    · exact h id hid (heq ▸ hid')
    · exact h id hid id hid' rfl
  have hzero : (∀ l ∈ instrs.map Line.of, l.result ≠ some 0) ↔ 0 ∉ resultIds instrs := by
    rw [List.forall_mem_map, mem_resultIds]
    simp [Line.of]
  have hmodel : (instrs.map Line.of).countP (fun l => l.instr.opcode = .memoryModel) =
      instrs.countP fun i => i.opcode = .memoryModel := List.countP_map
  have hreads : (∀ (k : Nat) (l : Line), (instrs.map Line.of)[k]? = some l → ∀ id ∈ l.reads,
      ∃ (j : Nat) (m : Line), (instrs.map Line.of)[j]? = some m ∧ m.result = some id ∧
        (l.instr.home? = some .types ∨ l.instr.home? = some .functions →
          j < k ∨ m.instr.opcode = .label ∨ m.instr.opcode = .func)) ↔
      ∀ (k : Nat) (i : Instruction), instrs[k]? = some i → ∀ id ∈ i.reads,
        ∃ (j : Nat) (m : Instruction), instrs[j]? = some m ∧ m.result? = some id ∧
          (i.home? = some .types ∨ i.home? = some .functions →
            j < k ∨ m.opcode = .label ∨ m.opcode = .func) := by
    simp [Line.of]
  have htop : (∃ top, bound = top + 1 ∧
      (∀ l ∈ instrs.map Line.of, ∀ id, l.result = some id → id ≤ top) ∧
      ((∃ l ∈ instrs.map Line.of, l.result = some top) ∨
        top = 0 ∧ ∀ l ∈ instrs.map Line.of, l.result = none)) ↔
      ∃ top, bound = top + 1 ∧ (∀ i ∈ instrs, ∀ id, i.result? = some id → id ≤ top) ∧
        ((∃ i ∈ instrs, i.result? = some top) ∨ top = 0 ∧ ∀ i ∈ instrs, i.result? = none) := by
    simp [Line.of]
  constructor
  · rintro ⟨hfits, hformed, hnonzero, hnodup, hbound, hordered, hmodels, htime, hmerges, hnested⟩
    rw [List.forall_mem_map] at hfits hformed
    rw [hunique] at hnodup
    rw [hzero] at hnonzero
    rw [hmodel] at hmodels
    rw [hinstrs] at hmerges hnested
    obtain ⟨hle, htop⟩ := (exists_top_iff hnonzero).1 (htop.1 hbound)
    exact ⟨hfits, fun i hi => Line.formed_of.1 (hformed i hi), hnonzero, hnodup, hle, htop,
      List.pairwise_map.1 hordered, fun i _ s hs => preamble_le_home hs,
      (forall_readsInTime_iff hnodup).2 (hreads.1 htime), hmodels,
      Scope.run_eq_outside_iff.2 hnested, hmerges⟩
  · intro h
    have hbound := (exists_top_iff h.nonzero).2 ⟨h.le_bound, h.bound_mem⟩
    refine ⟨List.forall_mem_map.2 h.fits,
      List.forall_mem_map.2 fun i hi => Line.formed_of.2 (h.shaped i hi), hzero.2 h.nonzero,
      hunique.2 h.nodup, ?_, List.pairwise_map.2 h.sorted, hmodel.trans h.memoryModel,
      hreads.2 ((forall_readsInTime_iff h.nodup).1 h.reads), ?_, ?_⟩
    · exact htop.2 hbound
    · rw [hinstrs]
      exact h.merges
    · rw [hinstrs]
      exact Scope.run_eq_outside_iff.1 h.nested

/-- A head word is that of the instruction it begins. -/
theorem Instruction.head_eq {word : UInt32} {operands : List UInt32}
    (hlength : operands.length + 1 = (word >>> 16).toNat) :
    (⟨⟨word.toUInt16⟩, operands⟩ : Instruction).fits ∧
      (⟨⟨word.toUInt16⟩, operands⟩ : Instruction).head = word := by
  have h16 : UInt32.toNat 16 % 32 = 16 := rfl
  have hword : word.toNat < 2 ^ 32 := word.toNat_lt
  rw [UInt32.toNat_shiftRight, h16, Nat.shiftRight_eq_div_pow] at hlength
  have hfits : (⟨⟨word.toUInt16⟩, operands⟩ : Instruction).fits := by
    simp only [Instruction.fits, decide_eq_true_eq, UInt16.size]
    omega
  refine ⟨hfits, UInt32.toNat_inj.1 ?_⟩
  rw [Instruction.head_toNat hfits]
  dsimp only
  rw [UInt32.toNat_toUInt16]
  omega

/-- Instructions that were read to the end are the words that they were read from. -/
theorem exists_words_of_readInstrs {offset : Nat} {ds : List Decoded}
    (h : readInstrs offset words = (ds, none)) :
    ∃ instrs : List Instruction, (∀ i ∈ instrs, i.fits) ∧
      words = instrs.flatMap Instruction.words := by
  fun_induction readInstrs offset words generalizing ds with
  | case1 => exact ⟨[], by simp, rfl⟩
  | case2 => cases h
  | case3 => cases h
  | case4 offset head rest count operands hcount d hd more failure hmore =>
    rename_i ih
    cases h
    obtain ⟨instrs, hfits, hrest⟩ := ih hmore
    have hlength : operands.length + 1 = count := by
      have hle : operands.length ≤ count - 1 := List.length_take_le _ _
      omega
    obtain ⟨hfit, hhead⟩ := Instruction.head_eq hlength
    refine ⟨⟨⟨head.toUInt16⟩, operands⟩ :: instrs, List.forall_mem_cons.2 ⟨hfit, hfits⟩, ?_⟩
    rw [List.flatMap_cons, ← hrest, Instruction.words, hhead, List.cons_append,
      List.take_append_drop]

theorem exists_binaryWords_of_verify (h : verify words = .ok ()) :
    ∃ version generator bound, ∃ instrs : List Instruction, (∀ i ∈ instrs, i.fits) ∧
      words = binaryWords version generator bound instrs := by
  unfold verify readModule at h
  cases hheader : readHeader words with
  | error e =>
    rw [hheader] at h
    cases h
  | ok found =>
    obtain ⟨header, rest⟩ := found
    rcases hinstrs : readInstrs headerSize rest with ⟨ds, failure⟩
    rw [hheader] at h
    simp only [Except.map, hinstrs] at h
    cases failure with
    | some e => cases h
    | none =>
      obtain ⟨instrs, hfits, rfl⟩ := exists_words_of_readInstrs hinstrs
      unfold readHeader at hheader
      split at hheader
      next magic version generator bound schema rest =>
        split_ifs at hheader with hmagic
        cases hheader
        by_cases hschema : schema = 0
        · subst hmagic hschema
          exact ⟨version, generator, bound, instrs, hfits, rfl⟩
        · simp [hschema, throw, throwThe, MonadExceptOf.throw, bind, Except.bind] at h
      next => cases hheader

/-- Verification accepts a binary exactly if its words are a header with the magic number and
schema zero and instructions that obey the rules. -/
theorem verify_eq_ok_iff (words : List UInt32) :
    verify words = .ok () ↔ ∃ version generator bound lines,
      words = magicNumber :: version :: generator :: bound :: 0 ::
        lines.flatMap (fun (l : Line) => l.instr.words) ∧ Accepted bound lines := by
  constructor
  · intro h
    obtain ⟨version, generator, bound, instrs, hfits, rfl⟩ := exists_binaryWords_of_verify h
    have hlegal := (verify_binaryWords_iff version generator hfits).1 h
    refine ⟨version, generator, bound, instrs.map Line.of, ?_, accepted_map_of_iff.2 hlegal⟩
    rw [List.flatMap_map]
    rfl
  · rintro ⟨version, generator, bound, lines, rfl, haccepted⟩
    obtain ⟨instrs, rfl⟩ : ∃ instrs : List Instruction, lines = instrs.map Line.of := by
      refine ⟨lines.map Line.instr, ?_⟩
      rw [List.map_map]
      exact (List.map_id lines).symm.trans
        (List.map_congr_left fun l hl => (haccepted.formed l hl).eq_of)
    have hlegal := accepted_map_of_iff.1 haccepted
    have hverify := (verify_binaryWords_iff version generator hlegal.fits).2 hlegal
    rw [binaryWords] at hverify
    rw [List.flatMap_map]
    exact hverify

/-! ## The bound -/

theorem lt_of_le_pred {id : UInt32} (hle : id ≤ bound - 1) (hbound : bound - 1 ≠ 0xFFFFFFFF) :
    id < bound := by
  rw [ne_eq, ← UInt32.toNat_inj, UInt32.toNat_sub] at hbound
  rw [UInt32.le_iff_toNat_le, UInt32.toNat_sub] at hle
  rw [UInt32.lt_iff_toNat_lt]
  have hone : UInt32.toNat 1 = 1 := rfl
  have htop : UInt32.toNat 0xFFFFFFFF = 0xFFFFFFFF := rfl
  have hlt := bound.toNat_lt
  omega

/-- In a binary that passes, every defined id lies strictly below the bound, unless the last word
of all is among them: the bound is counted in words, and it is zero then. -/
theorem definedIds_lt_bound {words : List UInt32} (h : verify words = .ok ()) :
    ∃ contents, readModule words = .ok contents ∧
      (0xFFFFFFFF ∉ definedIds words → ∀ id ∈ definedIds words, id < contents.header.bound) ∧
      (0xFFFFFFFF ∈ definedIds words → contents.header.bound = 0) := by
  obtain ⟨version, generator, bound, instrs, hfits, rfl⟩ := exists_binaryWords_of_verify h
  have hlegal := (verify_binaryWords_iff version generator hfits).1 h
  have hmodule := readModule_binaryWords version generator bound hfits
  obtain ⟨ds, hds⟩ := exists_readAll hlegal.shaped headerSize
  have hdefined : definedIds (binaryWords version generator bound instrs) = resultIds instrs := by
    rw [definedIds, hmodule, hds]
    exact (readList_of_readAll hds).filterMap_result
  refine ⟨_, hmodule, ?_, ?_⟩
  · rw [hdefined]
    intro htop id hid
    refine lt_of_le_pred (hlegal.le_bound id hid) fun hbound => ?_
    rcases hlegal.bound_mem with hzero | hmem
    · rw [hzero] at hbound
      exact absurd hbound (by decide)
    · exact htop (hbound ▸ hmem)
  · rw [hdefined]
    intro htop
    have hle := hlegal.le_bound _ htop
    have hpred : bound - 1 = 0xFFFFFFFF := by
      refine UInt32.le_antisymm ?_ hle
      have hsize : UInt32.toNat 0xFFFFFFFF = 0xFFFFFFFF := rfl
      have hlt := (bound - 1).toNat_lt
      rw [UInt32.le_iff_toNat_le]
      omega
    calc bound = bound - 1 + 1 := by simp
      _ = 0 := by rw [hpred]; rfl

/-- A memory model and one type, the void type, with a given id. -/
def voidBinary (bound id : UInt32) : List UInt32 :=
  binaryWords 0x10300 0 bound [⟨.memoryModel, [0, 1]⟩, ⟨.typeVoid, [id]⟩]

theorem definedIds_lt_bound_voidBinary :
    verify (voidBinary 8 7) = .ok () ∧ 0xFFFFFFFF ∉ definedIds (voidBinary 8 7) ∧
      ∃ contents, readModule (voidBinary 8 7) = .ok contents ∧
        ∀ id ∈ definedIds (voidBinary 8 7), id < contents.header.bound := by
  have hverify : verify (voidBinary 8 7) = .ok () := by decide +kernel
  have htop : 0xFFFFFFFF ∉ definedIds (voidBinary 8 7) := by decide +kernel
  obtain ⟨contents, hcontents, hlt, -⟩ := definedIds_lt_bound hverify
  exact ⟨hverify, htop, contents, hcontents, hlt htop⟩

/-- The last word of all is accepted as an id below the bound zero. -/
theorem verify_voidBinary_wrapped :
    verify (voidBinary 0 0xFFFFFFFF) = .ok () ∧ ∃ contents,
      readModule (voidBinary 0 0xFFFFFFFF) = .ok contents ∧
      ¬ ∀ id ∈ definedIds (voidBinary 0 0xFFFFFFFF), id < contents.header.bound := by
  refine ⟨by decide +kernel, _, readModule_binaryWords _ _ _ (by decide), fun hlt => ?_⟩
  have htop : 0xFFFFFFFF ∈ definedIds (voidBinary 0 0xFFFFFFFF) := by decide +kernel
  exact absurd (hlt _ htop) (by decide)

end Elementwise.Spirv
