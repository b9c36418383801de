import Elementwise.Proofs.Writing

/-!
# Refused calls leave a module as it was

Whoever builds a module may call in any order, try to finish at any time and go on after that. An
emission is rejected for one of four reasons, and then no section changes and the first refusal
stays. Words are returned at most once; after that the sections are what they are. An instruction
that was accepted stands in the section of its opcode.

Each step is described once, by `Assembly.Step`. What holds of a whole run follows by induction on
its actions.
-/
namespace Elementwise.Spirv

/-! ## Runs -/

/-- A call, or an attempt to finish. -/
inductive Action where
  | call (c : Call)
  | finish

namespace Assembly

/-- The selected section and the number of ids in use. -/
def cursor (a : Assembly) : Cursor := ⟨a.current, a.allocated⟩

def act (a : Assembly) : Action → Assembly
  | .call c => c.run a
  | .finish => a.finish.2

/-- What an attempt to finish returns. -/
def outcome? (a : Assembly) : Action → Option (Except Diagnostic (List UInt32))
  | .call _ => none
  | .finish => some a.finish.1

/-- The module after actions. -/
def after (a : Assembly) (actions : List Action) : Assembly := actions.foldl act a

/-- What the attempts to finish return, in order. -/
def outcomes (a : Assembly) : List Action → List (Except Diagnostic (List UInt32))
  | [] => []
  | x :: rest => (a.outcome? x).toList ++ (a.act x).outcomes rest

/-- Why an emission is rejected: the module is finished, the section is not written to, the opcode
belongs elsewhere, or the instruction is too long. Of several reasons the first is given. -/
inductive Rejects (a : Assembly) (target : Section) (i : Instruction) : Cause → Prop
  | finished (h : a.finished = true) : Rejects a target i (.afterFinalize i.opcode)
  | managed (hopen : a.finished = false) (h : target = .header ∨ target = .preamble) :
      Rejects a target i (.managedSection i.opcode target)
  | misplaced {home : Section} (hopen : a.finished = false)
      (htarget : target ≠ .header ∧ target ≠ .preamble) (hhome : i.home? = some home)
      (h : home ≠ target) : Rejects a target i (.wrongSection i.opcode target home)
  | tooLong (hopen : a.finished = false) (htarget : target ≠ .header ∧ target ≠ .preamble)
      (hhome : ∀ home, i.home? = some home → home = target)
      (h : UInt16.size ≤ i.operands.length + 1) :
      Rejects a target i (.tooLong i.opcode i.operands.length)

end Assembly

/-! ## Steps -/

theorem Instruction.fits_eq_false {i : Instruction} :
    i.fits = false ↔ UInt16.size ≤ i.operands.length + 1 := by
  simp [fits]

variable {home s : Section} {xs : List Action}

namespace Assembly

variable {a b : Assembly} {target : Section} {i : Instruction} {cause : Cause}

theorem objection?_eq_some_iff : a.objection? target i = some cause ↔ a.Rejects target i cause := by
  constructor
  · intro h
    unfold objection? at h
    by_cases hfinished : a.finished = true
    · rw [if_pos hfinished] at h
      cases h
      exact .finished hfinished
    rw [if_neg hfinished] at h
    have hopen : a.finished = false := by simpa using hfinished
    by_cases hmanaged : (target = .header || target = .preamble) = true
    · rw [if_pos hmanaged] at h
      cases h
      exact .managed hopen (by simpa using hmanaged)
    rw [if_neg hmanaged] at h
    have htarget : target ≠ .header ∧ target ≠ .preamble := by simpa using hmanaged
    cases hhome : i.home? with
    | none =>
      simp only [hhome] at h
      split_ifs at h with hfits
      cases h
      refine .tooLong hopen htarget (by simp [hhome]) ?_
      exact Instruction.fits_eq_false.1 (by simpa using hfits)
    | some home =>
      simp only [hhome] at h
      split_ifs at h with hplace hfits
      · cases h
        exact .misplaced hopen htarget hhome hplace
      · cases h
        refine .tooLong hopen htarget ?_ (Instruction.fits_eq_false.1 (by simpa using hfits))
        intro home' h'
        cases hhome.symm.trans h'
        exact not_not.1 hplace
  · intro h
    unfold objection?
    cases h with
    | finished h => rw [if_pos h]
    | managed hopen h => simp [hopen, h]
    | misplaced hopen htarget hhome h => simp [hopen, htarget, hhome, h]
    | tooLong hopen htarget hhome h =>
      rw [← Instruction.fits_eq_false] at h
      cases hi : i.home? with
      | none => simp [hopen, htarget, h]
      | some home => simp [hopen, htarget, h, hhome home hi]

/-- The sections stay, and with them whether the module is finished. -/
structure Kept (a b : Assembly) : Prop where
  sections : ∀ s, b.sectionInstrs s = a.sectionInstrs s
  finished : b.finished = a.finished

/-- What one action does to the sections, to the refusal and to whether the module is finished, and
what it returns. -/
inductive Step (a : Assembly) : Action → Option (Except Diagnostic (List UInt32)) → Assembly → Prop
  | silent {c : Call} {b : Assembly} (hemission : c.emission? a.cursor = none)
      (hkept : a.Kept b) (hrefusal : b.refusal = a.refusal) : Step a (.call c) none b
  | rejected {c : Call} {b : Assembly} {target : Section} {i : Instruction} {cause : Cause}
      (hemission : c.emission? a.cursor = some (target, i)) (hrejects : a.Rejects target i cause)
      (hkept : a.Kept b) (hrefusal : b.refusal = a.refusal.or (some { cause })) :
      Step a (.call c) none b
  | accepted {c : Call} {b : Assembly} {target : Section} {i : Instruction}
      (hemission : c.emission? a.cursor = some (target, i)) (hopen : a.finished = false)
      (hadmitted : i.Admitted target)
      (hsections : ∀ s, b.sectionInstrs s = if s = target ∧ s ∈ openSections
        then (a.sectionInstrs s).push i else a.sectionInstrs s)
      (hfinished : b.finished = false) (hrefusal : b.refusal = a.refusal) : Step a (.call c) none b
  | again (hfinished : a.finished = true) :
      Step a .finish (some (.error { cause := .finalizedTwice })) a
  | withheld {d : Diagnostic} (hopen : a.finished = false) (hrefusal : a.refusal = some d) :
      Step a .finish (some (.error d)) a
  | finished {b : Assembly} {out : Except Diagnostic (List UInt32)} (hopen : a.finished = false)
      (hrefusal : a.refusal = none) (hfinished : b.finished = true)
      (hpreamble : ∀ i ∈ b.preamble, i ∈ a.preambleInstrs)
      (hothers : ∀ s ≠ .preamble, b.sectionInstrs s = a.sectionInstrs s) :
      Step a .finish (some out) b

theorem Kept.trans {d : Assembly} (h : a.Kept b) (h' : b.Kept d) : a.Kept d :=
  ⟨fun s => (h'.sections s).trans (h.sections s), h'.finished.trans h.finished⟩

theorem kept_refuse (a : Assembly) (cause : Cause) : a.Kept (a.refuse cause) := by
  unfold refuse
  cases a.refusal <;> exact ⟨fun s => by cases s <;> rfl, rfl⟩

theorem refusal_refuse (a : Assembly) (cause : Cause) :
    (a.refuse cause).refusal = a.refusal.or (some { cause }) := by
  unfold refuse
  cases h : a.refusal
  · rfl
  · exact h

theorem kept_prepare (a : Assembly) (c : Call) : a.Kept (c.prepare a) := by
  cases c <;> exact ⟨fun s => by cases s <;> rfl, rfl⟩

theorem refusal_prepare (a : Assembly) (c : Call) : (c.prepare a).refusal = a.refusal := by
  cases c <;> rfl

theorem sectionInstrs_append (a : Assembly) (target : Section) (i : Instruction) (s : Section) :
    (a.append target i).sectionInstrs s = if s = target ∧ s ∈ openSections
      then (a.sectionInstrs s).push i else a.sectionInstrs s := by
  cases target <;> cases s <;> first | rfl | simp [openSections, sectionInstrs]

theorem step_call (a : Assembly) (c : Call) : a.Step (.call c) none (c.run a) := by
  have hrun := c.run_eq (a := a) (k := a.cursor) rfl rfl
  cases hemission : c.emission? a.cursor with
  | none =>
    rw [hemission, Option.elim_none] at hrun
    rw [hrun]
    exact .silent hemission (a.kept_prepare c) (a.refusal_prepare c)
  | some e =>
    obtain ⟨target, i⟩ := e
    rw [hemission, Option.elim_some] at hrun
    have hobjection : (c.prepare a).objection? target i = a.objection? target i := by
      unfold objection?
      rw [(a.kept_prepare c).finished]
    rw [hrun, emitInstr, hobjection]
    cases hcause : a.objection? target i with
    | some cause =>
      refine .rejected hemission (objection?_eq_some_iff.1 hcause)
        ((a.kept_prepare c).trans (kept_refuse _ cause)) ?_
      rw [refusal_refuse, refusal_prepare]
    | none =>
      obtain ⟨⟨hopen, htarget⟩, hadmitted⟩ := objection?_eq_none.1 hcause
      refine .accepted hemission hopen ⟨htarget, hadmitted⟩ (fun s => ?_) ?_ ?_
      · rw [sectionInstrs_append, (a.kept_prepare c).sections]
      · rw [← hopen, ← (a.kept_prepare c).finished]
        cases target <;> rfl
      · rw [← refusal_prepare a c]
        cases target <;> rfl

/-- Writing the preamble sets it and finishes the module, whether or not something does not fit. -/
theorem kept_writePreamble (a : Assembly) :
    Kept { a with preamble := (a.preambleInstrs.filter Instruction.fits).toArray, finished := true }
      a.writePreamble := by
  dsimp only [writePreamble]
  split
  · exact kept_refuse _ _
  · exact ⟨fun _ => rfl, rfl⟩

theorem step_finish (a : Assembly) : a.Step .finish (some a.finish.1) a.finish.2 := by
  cases hfinished : a.finished with
  | true =>
    have heq : a.finish = (.error { cause := .finalizedTwice }, a) := by simp [finish, hfinished]
    rw [heq]
    exact .again hfinished
  | false =>
    cases hrefusal : a.refusal with
    | some d =>
      have heq : a.finish = (.error d, a) := by simp [finish, hfinished, hrefusal]
      rw [heq]
      exact .withheld hfinished hrefusal
    | none =>
      have hdone : a.finish.2 = a.writePreamble := by
        simp only [finish, hfinished, Bool.false_eq_true, if_false, hrefusal]
        cases a.writePreamble.refusal <;> rfl
      have hkept := a.kept_writePreamble
      rw [hdone]
      refine .finished hfinished hrefusal hkept.finished (fun i hi => ?_) (fun s hs => ?_)
      · change i ∈ sectionInstrs _ .preamble at hi
        rw [hkept.sections, sectionInstrs, List.mem_toArray] at hi
        exact List.mem_of_mem_filter hi
      · rw [hkept.sections]
        cases s with
        | preamble => exact absurd rfl hs
        | _ => rfl

theorem step (a : Assembly) (x : Action) : a.Step x (a.outcome? x) (a.act x) := by
  cases x with
  | call c => exact a.step_call c
  | finish => exact a.step_finish

/-! ## What a step keeps -/

variable {x : Action} {out : Option (Except Diagnostic (List UInt32))} {d : Diagnostic}

namespace Step

theorem refusal (h : a.Step x out b) (hd : a.refusal = some d) : b.refusal = some d := by
  cases h with
  | silent _ _ hrefusal | accepted _ _ _ _ _ hrefusal => rw [hrefusal, hd]
  | rejected _ _ _ hrefusal => rw [hrefusal, hd, Option.some_or]
  | again | withheld => exact hd
  | finished _ hrefusal => cases hrefusal.symm.trans hd

/-- A finished module stays finished, with the same sections. -/
theorem of_finished (h : a.Step x out b) (hfinished : a.finished = true) :
    b.finished = true ∧ ∀ s, b.sectionInstrs s = a.sectionInstrs s := by
  cases h with
  | silent _ hkept | rejected _ _ hkept => exact ⟨hkept.finished.trans hfinished, hkept.sections⟩
  | accepted _ hopen => cases hopen.symm.trans hfinished
  | again => exact ⟨hfinished, fun _ => rfl⟩
  | withheld hopen => cases hopen.symm.trans hfinished
  | finished hopen => cases hopen.symm.trans hfinished

/-- A module with a refusal cannot be finished. -/
theorem of_refusal (h : a.Step x out b) (hopen : a.finished = false) (hd : a.refusal = some d) :
    b.finished = false ∧ ∀ o ∈ out, o = .error d := by
  cases h with
  | silent _ hkept | rejected _ _ hkept => exact ⟨hkept.finished.trans hopen, by simp⟩
  | accepted _ _ _ _ heq => exact ⟨heq, by simp⟩
  | again hfinished => cases hopen.symm.trans hfinished
  | withheld _ hd' =>
    cases hd.symm.trans hd'
    exact ⟨hopen, by simp⟩
  | finished _ hnone => cases hnone.symm.trans hd

/-- An attempt to finish that leaves the module unfinished reports the refusal. -/
theorem of_unfinished (h : a.Step x out b) (hopen : b.finished = false) :
    a.finished = false ∧ ∀ o ∈ out, ∃ d, a.refusal = some d ∧ o = .error d := by
  cases h with
  | silent _ hkept | rejected _ _ hkept => exact ⟨hkept.finished.symm.trans hopen, by simp⟩
  | accepted _ h => exact ⟨h, by simp⟩
  | again hfinished => cases hopen.symm.trans hfinished
  | @withheld d _ hd => exact ⟨hopen, fun o ho => ⟨d, hd, (Option.mem_some_iff.1 ho).symm⟩⟩
  | finished _ _ hfinished => cases hopen.symm.trans hfinished

/-- What is written stays, apart from the preamble. -/
theorem mem (h : a.Step x out b) (hs : s ≠ .preamble) (hi : i ∈ a.sectionInstrs s) :
    i ∈ b.sectionInstrs s := by
  cases h with
  | silent _ hkept | rejected _ _ hkept => rwa [hkept.sections]
  | accepted _ _ _ hsections =>
    rw [hsections]
    split
    · exact Array.mem_push.2 (Or.inl hi)
    · exact hi
  | again | withheld => exact hi
  | finished _ _ _ _ hothers => rwa [hothers s hs]

end Step

/-- Every instruction that has a section of its own stands there. -/
def Placed (a : Assembly) : Prop :=
  ∀ s, ∀ i ∈ a.sectionInstrs s, ∀ home, i.home? = some home → home = s

theorem home?_of_mem_preambleInstrs (h : i ∈ a.preambleInstrs) : i.home? = some .preamble := by
  simp only [preambleInstrs, List.mem_append, List.mem_map, List.mem_singleton] at h
  rcases h with (⟨c, -, rfl⟩ | ⟨e, -, rfl⟩) | rfl <;> rfl

theorem Step.placed (h : a.Step x out b) (ha : a.Placed) : b.Placed := by
  intro s i hi home hhome
  cases h with
  | silent _ hkept | rejected _ _ hkept =>
    rw [hkept.sections] at hi
    exact ha s i hi home hhome
  | accepted _ _ hadmitted hsections =>
    rw [hsections] at hi
    split at hi
    next hplace =>
      rcases Array.mem_push.1 hi with hi | rfl
      · exact ha s i hi home hhome
      · exact (hadmitted.2.1 home hhome).trans hplace.1.symm
    · exact ha s i hi home hhome
  | again | withheld => exact ha s i hi home hhome
  | finished _ _ _ hpreamble hothers =>
    by_cases hs : s = .preamble
    · subst hs
      have hplace := home?_of_mem_preambleInstrs (hpreamble i hi)
      exact Option.some.inj (hhome.symm.trans hplace)
    · rw [hothers s hs] at hi
      exact ha s i hi home hhome

/-! ## What a run keeps -/

theorem after_append (a : Assembly) (xs ys : List Action) :
    a.after (xs ++ ys) = (a.after xs).after ys := List.foldl_append

theorem outcomes_append (a : Assembly) (xs ys : List Action) :
    a.outcomes (xs ++ ys) = a.outcomes xs ++ (a.after xs).outcomes ys := by
  induction xs generalizing a with
  | nil => rfl
  | cons x rest ih => simp [outcomes, ih, after]

theorem refusal_after (hd : a.refusal = some d) (xs : List Action) :
    (a.after xs).refusal = some d := by
  induction xs generalizing a with
  | nil => exact hd
  | cons x rest ih => exact ih ((a.step x).refusal hd)

theorem after_of_finished (h : a.finished = true) (xs : List Action) :
    (a.after xs).finished = true ∧ ∀ s, (a.after xs).sectionInstrs s = a.sectionInstrs s := by
  induction xs generalizing a with
  | nil => exact ⟨h, fun _ => rfl⟩
  | cons x rest ih =>
    obtain ⟨hfinished, hsections⟩ := (a.step x).of_finished h
    obtain ⟨hlast, hrest⟩ := ih hfinished
    exact ⟨hlast, fun s => (hrest s).trans (hsections s)⟩

/-- Calls do not finish a module. -/
theorem finished_after_calls (hopen : a.finished = false) (h : Action.finish ∉ xs) :
    (a.after xs).finished = false := by
  induction xs generalizing a with
  | nil => exact hopen
  | cons x rest ih =>
    rw [List.mem_cons, not_or] at h
    refine ih ?_ h.2
    cases x with
    | finish => exact absurd rfl h.1
    | call c =>
      change (c.run a).finished = false
      cases a.step_call c with
      | silent _ hkept | rejected _ _ hkept => exact hkept.finished.trans hopen
      | accepted _ _ _ _ hstill => exact hstill

theorem mem_after (hs : s ≠ .preamble) (hi : i ∈ a.sectionInstrs s) (xs : List Action) :
    i ∈ (a.after xs).sectionInstrs s := by
  induction xs generalizing a with
  | nil => exact hi
  | cons x rest ih => exact ih ((a.step x).mem hs hi)

theorem Placed.after (ha : a.Placed) (xs : List Action) : (a.after xs).Placed := by
  induction xs generalizing a with
  | nil => exact ha
  | cons x rest ih => exact ih ((a.step x).placed ha)

theorem placed_start (version : Version) : Placed { version } := by
  intro s i hi
  have hnone : i ∉ (#[] : Array Instruction) := Array.not_mem_empty i
  cases s <;> exact absurd hi hnone

/-- Attempts to finish that follow a refusal report it. -/
theorem outcomes_of_refusal (hopen : a.finished = false) (hd : a.refusal = some d)
    (xs : List Action) : ∀ out ∈ a.outcomes xs, out = .error d := by
  induction xs generalizing a with
  | nil => simp [outcomes]
  | cons x rest ih =>
    obtain ⟨hstill, hout⟩ := (a.step x).of_refusal hopen hd
    refine List.forall_mem_append.2 ⟨?_, ih hstill ((a.step x).refusal hd)⟩
    simpa using hout

/-- Attempts to finish that left the module unfinished have reported its refusal. -/
theorem outcomes_of_unfinished (hopen : (a.after xs).finished = false) :
    a.finished = false ∧
      ∀ out ∈ a.outcomes xs, ∃ d, (a.after xs).refusal = some d ∧ out = .error d := by
  induction xs generalizing a with
  | nil => exact ⟨hopen, by simp [outcomes]⟩
  | cons x rest ih =>
    obtain ⟨hnext, hrest⟩ := ih hopen
    obtain ⟨hnow, hfirst⟩ := (a.step x).of_unfinished hnext
    refine ⟨hnow, List.forall_mem_append.2 ⟨fun out hout => ?_, hrest⟩⟩
    obtain ⟨d, hd, rfl⟩ := hfirst out (by simpa using hout)
    exact ⟨d, refusal_after ((a.step x).refusal hd) rest, rfl⟩

theorem not_ok_of_finished (h : a.finished = true) (xs : List Action) :
    ∀ out ∈ a.outcomes xs, ¬ out.isOk := by
  induction xs generalizing a with
  | nil => simp [outcomes]
  | cons x rest ih =>
    refine List.forall_mem_append.2 ⟨fun out hout => ?_, ih ((a.step x).of_finished h).1⟩
    cases x with
    | call c => cases hout
    | finish =>
      have herror : out = .error { cause := .finalizedTwice } := by
        simpa [outcome?, finish, h] using hout
      rw [herror]
      exact Bool.false_ne_true

/-- Words are returned once at most: an attempt either returns none, or finishes the module. -/
theorem countP_outcomes_le (a : Assembly) (xs : List Action) :
    (a.outcomes xs).countP Except.isOk ≤ 1 := by
  induction xs generalizing a with
  | nil => exact Nat.zero_le _
  | cons x rest ih =>
    rw [outcomes, List.countP_append]
    cases hnext : (a.act x).finished with
    | true =>
      have hnone : ((a.act x).outcomes rest).countP Except.isOk = 0 :=
        List.countP_eq_zero.2 (not_ok_of_finished hnext rest)
      have hone : (a.outcome? x).toList.length ≤ 1 := by cases a.outcome? x <;> simp
      have hfirst := List.countP_le_length (p := Except.isOk) (l := (a.outcome? x).toList)
      omega
    | false =>
      have hnone : (a.outcome? x).toList.countP Except.isOk = 0 := by
        refine List.countP_eq_zero.2 fun out hout => ?_
        obtain ⟨d, -, rfl⟩ := ((a.step x).of_unfinished hnext).2 out (by simpa using hout)
        exact Bool.false_ne_true
      have hrest := ih (a.act x)
      omega

/-! ## Calls at a point of a run -/

/-- A rejected emission leaves the sections, and the first refusal. -/
theorem run_of_rejects {c : Call} (hemission : c.emission? a.cursor = some (target, i))
    (h : a.Rejects target i cause) :
    a.Kept (c.run a) ∧ (c.run a).refusal = a.refusal.or (some { cause }) := by
  cases a.step_call c with
  | silent hnone => cases hnone.symm.trans hemission
  | rejected hemission' hrejects hkept hrefusal =>
    cases hemission.symm.trans hemission'
    cases (objection?_eq_some_iff.2 h).symm.trans (objection?_eq_some_iff.2 hrejects)
    exact ⟨hkept, hrefusal⟩
  | accepted hemission' hopen hadmitted =>
    cases hemission.symm.trans hemission'
    have hnone := objection?_eq_none.2 ⟨⟨hopen, hadmitted.1⟩, hadmitted.2⟩
    cases hnone.symm.trans (objection?_eq_some_iff.2 h)

theorem home_mem_openSections (h : i.home? = some home) (hne : home ≠ .preamble) :
    home ∈ openSections := by
  have htable : ∀ e ∈ Opcode.shapes, e.2.home ∈ .preamble :: openSections := by decide
  rw [Instruction.home?, Opcode.home?] at h
  split_ifs at h
  · cases h
    decide
  · obtain ⟨shape, hshape, rfl⟩ := Option.map_eq_some_iff.1 h
    exact (List.mem_cons.1 (htable _ (mem_of_lookup hshape))).resolve_left hne

/-- An accepted instruction of a known opcode is written to the section of the opcode. -/
theorem run_of_accepts {c : Call} (hemission : c.emission? a.cursor = some (target, i))
    (h : ∀ cause, ¬ a.Rejects target i cause) (hhome : i.home? = some home) :
    home ≠ .preamble ∧ (c.run a).sectionInstrs home = (a.sectionInstrs home).push i ∧
      ∀ s ≠ home, (c.run a).sectionInstrs s = a.sectionInstrs s := by
  cases a.step_call c with
  | silent hnone => cases hnone.symm.trans hemission
  | rejected hemission' hrejects =>
    cases hemission.symm.trans hemission'
    exact absurd hrejects (h _)
  | accepted hemission' _ hadmitted hsections =>
    cases hemission.symm.trans hemission'
    obtain rfl := hadmitted.2.1 home hhome
    have hopen := home_mem_openSections hhome hadmitted.1.2
    refine ⟨hadmitted.1.2, ?_, fun s hs => ?_⟩
    · rw [hsections, if_pos ⟨rfl, hopen⟩]
    · rw [hsections, if_neg fun h => hs h.1]

/-- An attempt to finish that returned words has finished the module. -/
theorem finished_of_ok {words : List UInt32} (h : a.finish.1 = .ok words) :
    a.finish.2.finished = true := by
  obtain ⟨hrefusal, hopen, -⟩ := finish_eq_ok_iff.1 h
  cases hnext : a.finish.2.finished with
  | true => rfl
  | false =>
    obtain ⟨d, hd, -⟩ := (a.step_finish.of_unfinished hnext).2 _ rfl
    cases hrefusal.symm.trans hd

/-- What is promised at a point of a run: the actions before it were taken from a start, and others
follow. -/
structure Disciplined (start : Assembly) (before rest : List Action) : Prop where
  /-- A rejected emission changes no section, and is the refusal if there was none. -/
  rejected : ∀ c target i cause, c.emission? (start.after before).cursor = some (target, i) →
    (start.after before).Rejects target i cause →
      (∀ s, (start.after (before ++ [.call c])).sectionInstrs s =
        (start.after before).sectionInstrs s) ∧
      (start.after (before ++ [.call c])).refusal =
        (start.after before).refusal.or (some { cause })
  /-- An accepted instruction is appended to the section of its opcode, and stays there. -/
  accepted : ∀ c target i home, c.emission? (start.after before).cursor = some (target, i) →
    (∀ cause, ¬ (start.after before).Rejects target i cause) → i.home? = some home →
      (start.after (before ++ [.call c])).sectionInstrs home =
        ((start.after before).sectionInstrs home).push i ∧
      (∀ s ≠ home, (start.after (before ++ [.call c])).sectionInstrs s =
        (start.after before).sectionInstrs s) ∧
      i ∈ (start.after (before ++ .call c :: rest)).sectionInstrs home
  /-- Nothing stands in a section that is not its own. -/
  placed : ∀ s, ∀ i ∈ (start.after before).sectionInstrs s, ∀ home, i.home? = some home → home = s
  /-- The first refusal stays. -/
  refusal : ∀ d, (start.after before).refusal = some d →
    (start.after (before ++ rest)).refusal = some d
  /-- Words are returned once at most. -/
  once : (start.outcomes (before ++ rest)).countP Except.isOk ≤ 1
  /-- A module is not finished before the first attempt. -/
  unfinished : .finish ∉ before → (start.after before).finished = false
  /-- If an emission was rejected while the module was not finished, every attempt to finish, before
  or after it, reports the first refusal. -/
  reported : ∀ c target i cause, c.emission? (start.after before).cursor = some (target, i) →
    (start.after before).Rejects target i cause → (start.after before).finished = false →
      ∃ d, (start.after (before ++ [.call c])).refusal = some d ∧
        ∀ out ∈ start.outcomes (before ++ .call c :: rest), out = .error d
  /-- After words were returned, the sections stay and every emission is rejected. -/
  closed : ∀ words, (start.after before).finish.1 = .ok words →
    (∀ s, (start.after (before ++ .finish :: rest)).sectionInstrs s =
      (start.after (before ++ [.finish])).sectionInstrs s) ∧
    ∀ target i, (start.after (before ++ .finish :: rest)).Rejects target i (.afterFinalize i.opcode)

/-- Every run that begins with an empty module is disciplined, at every point. -/
theorem disciplined_run (version : Version) (before rest : List Action) :
    Disciplined { version } before rest where
  rejected c target i cause hemission h := by
    obtain ⟨hkept, hrefusal⟩ := run_of_rejects hemission h
    rw [after_append]
    exact ⟨hkept.sections, hrefusal⟩
  accepted c target i home hemission h hhome := by
    obtain ⟨hne, hpush, hothers⟩ := run_of_accepts hemission h hhome
    rw [after_append, after_append]
    refine ⟨hpush, hothers, mem_after hne ?_ rest⟩
    exact hpush ▸ Array.mem_push_self
  placed := (placed_start version).after before
  refusal d hd := by
    rw [after_append]
    exact refusal_after hd rest
  once := countP_outcomes_le _ _
  unfinished := finished_after_calls rfl
  reported c target i cause hemission h hopen := by
    obtain ⟨hkept, hrefusal⟩ := run_of_rejects hemission h
    obtain ⟨d, hd⟩ : ∃ d, (c.run (after { version } before)).refusal = some d := by
      rw [hrefusal]
      cases (after { version } before).refusal <;> exact ⟨_, rfl⟩
    refine ⟨d, by rw [after_append]; exact hd, ?_⟩
    rw [outcomes_append]
    refine List.forall_mem_append.2 ⟨fun out hout => ?_, ?_⟩
    · obtain ⟨d', hd', rfl⟩ := (outcomes_of_unfinished hopen).2 out hout
      rw [hd', Option.some_or, hd] at hrefusal
      cases hrefusal
      rfl
    · exact outcomes_of_refusal (hkept.finished.trans hopen) hd rest
  closed words hwords := by
    have hfinished := finished_of_ok hwords
    obtain ⟨hstill, hsections⟩ := after_of_finished hfinished rest
    rw [after_append, after_append]
    exact ⟨hsections, fun target i => .finished hstill⟩

/-- A type that is declared among function bodies is refused: the types stay as they were, and every
attempt to finish says so. Without it the module is finished, and takes no label after that. -/
theorem disciplined_run_misplaced :
    let start : Assembly := { version := ⟨1, 3⟩ }
    let before : List Action := [.call (.declare .typeFloat fun id => [id, 32])]
    let misplaced : Call := .emit .typeVoid [2]
    let late : Action := .call (.emit .label [2])
    (start.after (before ++ [.call misplaced])).types = #[⟨.typeFloat, [1, 32]⟩] ∧
      (∀ out ∈ start.outcomes (before ++ .call misplaced :: [.finish, .finish]),
        out = .error { cause := .wrongSection .typeVoid .functions .types }) ∧
      (start.after before).finish.1.isOk ∧
      (start.after (before ++ .finish :: [late, .finish])).functions = #[] ∧
      (start.outcomes (before ++ .finish :: [late, .finish])).countP Except.isOk ≤ 1 := by
  intro start before misplaced late
  have hrejects : (start.after before).Rejects .functions ⟨.typeVoid, [2]⟩
      (.wrongSection .typeVoid .functions .types) := .misplaced rfl (by decide) rfl (by decide)
  have hfirst := disciplined_run ⟨1, 3⟩ before [.finish, .finish]
  have hlast := disciplined_run ⟨1, 3⟩ before (.finish :: [late, .finish])
  have hafter := disciplined_run ⟨1, 3⟩ before [late, .finish]
  obtain ⟨hsections, hrefusal⟩ := hfirst.rejected misplaced _ _ _ rfl hrejects
  obtain ⟨d, hd, hreported⟩ := hfirst.reported misplaced _ _ _ rfl hrejects rfl
  cases hrefusal.symm.trans hd
  have hok : (start.after before).finish.1.isOk := by decide +kernel
  refine ⟨hsections .types, hreported, hok, ?_, hlast.once⟩
  cases hfinish : (start.after before).finish.1 with
  | error d =>
    rw [hfinish] at hok
    cases hok
  | ok words => exact (hafter.closed words hfinish).1 .functions

end Assembly

end Elementwise.Spirv
