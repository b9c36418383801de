import Elementwise.Proofs.Acceptance
import Elementwise.Proofs.Compilation

/-!
# Code does not depend on names

Corresponding programs are compiled to the same words, unless names are asked for. Every step of
writing a function runs in lockstep with the same step for the corresponding function: operands,
labels and callees are found under corresponding identities, types are the same, and where a step
fails, it fails on both sides. What differs are the names in diagnostics, which are not part of
their kind.
-/
namespace Elementwise.Spirv
open IR Gen

variable {r : Relabeling}

section Program

variable {p p' : Program}

/-- Corresponding kernels have the same element type, or the same is wrong with them. -/
theorem elementType_related {id : FuncId} {f f' : Func} (h : f.Alike r id f') :
    (∃ t, elementType f = .ok t ∧ elementType f' = .ok t) ∨
      ∃ e e', elementType f = .error e ∧ elementType f' = .error e' ∧ e'.kind = e.kind := by
  have hparams := h.params
  unfold elementType
  rw [h.result]
  generalize f.params = params at hparams
  generalize f'.params = params' at hparams
  cases hparams with
  | nil => exact Or.inr ⟨_, _, rfl, rfl, rfl⟩
  | cons hq hrest =>
    cases hrest with
    | cons _ _ => cases hq <;> exact Or.inr ⟨_, _, rfl, rfl, rfl⟩
    | nil =>
      cases hq with
      | none => exact Or.inr ⟨_, _, rfl, rfl, rfl⟩
      | some htype =>
        dsimp only
        rw [htype]
        cases Param.type _ with
        | pointer elem space =>
          dsimp only
          split_ifs
          · exact Or.inr ⟨_, _, rfl, rfl, rfl⟩
          · exact Or.inr ⟨_, _, rfl, rfl, rfl⟩
          · exact Or.inl ⟨elem, rfl, rfl⟩
          · exact Or.inr ⟨_, _, rfl, rfl, rfl⟩
        | _ => exact Or.inr ⟨_, _, rfl, rfl, rfl⟩

/-- The kernels correspond, if there are any. -/
theorem kernel?_related (h : p.Corresponds r p') :
    Option.Rel (fun e e' : FuncId × Func => e'.1 = r.func e.1 ∧ e.2.Alike r e.1 e'.2)
      p.kernel? p'.kernel? := by
  have hlisted := h.listed
  have hstored : ∀ {p : Program} {e : FuncId × Func} {rest}, p.listed = some e :: rest →
      p.func? e.1 = some e.2 := by
    intro p e rest he
    exact func?_of_listed (he ▸ List.mem_cons_self)
  unfold Program.kernel?
  cases hp : p.listed with
  | nil =>
    rw [hp, List.forall₂_nil_left_iff] at hlisted
    rw [hlisted]
    exact .none
  | cons entry rest =>
    rw [hp, List.forall₂_cons_left_iff] at hlisted
    obtain ⟨entry', rest', hentry, -, hp'⟩ := hlisted
    rw [hp']
    obtain ⟨rfl, rfl⟩ | ⟨e, e', rfl, rfl, hid⟩ := rel_cases hentry
    · exact .none
    · have hfunc := h.funcs e.1
      rw [hstored hp, ← hid, hstored hp'] at hfunc
      cases hfunc with
      | some halike => exact .some ⟨hid, halike⟩

/-- If names are not asked for, the whole modules agree, and it does not matter which steps lead to
them. -/
theorem build_lockstep {α : Type} (steps : Build α) :
    Steady r true (fun _ _ => True) (build steps) := by
  intro s t hst
  cases hst.same rfl
  exact .ok rfl (.relabeled _) (.single trivial)

theorem assemble_lockstep (h : p.Corresponds r p') {options : Options}
    (hdebug : options.debug = false) :
    Lockstep r true (fun _ _ => True) Eq (assemble p options) (assemble p' options) := by
  have hids : p'.listed.map (fun entry => entry.map (·.1)) =
      (p.listed.map fun entry => entry.map (·.1)).map (Option.map r.func) := by
    refine map_related h.listed fun entry entry' hentry => ?_
    cases hentry with
    | none => rfl
    | some hid => exact congrArg some hid
  unfold assemble
  refine Lockstep.throwIf (by rw [h.isEmpty_order]) rfl fun _ => ?_
  refine ((addCapabilities_lockstep fun _ => rfl).mono fun _ _ _ => trivial).andThen fun _ => ?_
  obtain ⟨hk, hk'⟩ | ⟨⟨kernel, f⟩, ⟨kernel', f'⟩, hk, hk', hkernel, halike⟩ :=
    rel_cases (kernel?_related h)
  · rw [hk, hk']
    exact fail_lockstep rfl
  · rw [hk, hk']
    cases hkernel
    obtain ⟨elem, ht, ht'⟩ | ⟨e, e', he, he', hkind⟩ := elementType_related halike
    · dsimp only
      rw [ht, ht', hids]
      refine ((declareKernel_lockstep (fun _ => ⟨rfl, hdebug⟩) elem).mono
        fun _ _ _ => trivial).andThen fun ids => ?_
      refine ((declareFunctions_lockstep h.faithful _).mono fun _ _ _ => trivial).andThen
        fun _ => ?_
      refine ((lowerListed_lockstep h (fun _ => ⟨hdebug, hdebug⟩) h.listed []).mono
        fun _ _ _ => trivial).andThen fun _ => .getBind fun s t hst => ?_
      rw [← Option.map_some, hst.lookup_function h.faithful]
      refine Lockstep.andThen (.inFunctions (fun _ _ => trivial) (build_lockstep _)) fun entry => ?_
      refine (build_lockstep _).andThen fun _ => (build_lockstep _).andThen fun _ => ?_
      rw [hdebug]
      exact .pure rfl
    · dsimp only
      rw [he, he']
      exact .throw hkind

theorem finish_lockstep : Steady r true (fun _ _ => True) finish := by
  intro s t hst
  cases hst.same rfl
  have hassembly : (Generator.relabel r s).assembly = s.assembly := rfl
  unfold finish
  rw [hassembly]
  obtain ⟨result, assembly⟩ := s.assembly.finish
  cases result with
  | ok words => exact .ok rfl (.relabeled _) (.single trivial)
  | error d => exact .error rfl

/-- The words of the finished module, and its interface. -/
def generate (program : Program) (options : Options) : Gen (List UInt32 × (HostCodes → Abi)) := do
  let abi ← assemble program options
  return (← finish, abi)

/-- What a finished run comes to once its module is judged. -/
def verdict (options : Options) :
    EStateM.Result Failure Generator (List UInt32 × (HostCodes → Abi)) → Except Failure Compiled
  | .error e _ => .error e
  | .ok (words, abi) s =>
    (judge options words s.interned.diagnostics).map fun _ =>
      ⟨words, abi {}, s.interned.diagnostics⟩

theorem compile_eq_verdict (program : Program) (options : Options) :
    compile program options =
      verdict options (generate program options (.start options.version)) := by
  change (match generate program options (.start options.version) with
    | .error e s => _
    | .ok (words, abi) s => _ : Except Failure Compiled × List LogRecord).1 = _
  cases generate program options (.start options.version) with
  | error e s => rfl
  | ok result s =>
    dsimp only [verdict]
    cases judge options result.1 s.interned.diagnostics <;> rfl

/-- A program and its correspondent compile to the same words, the same interface and the same
reports, or both fail for a reason of the same kind. -/
theorem compile_corresponds (h : p.Corresponds r p') (options : Options)
    (hdebug : options.debug = false) :
    (∃ c, compile p options = .ok c ∧ compile p' options = .ok c) ∨
      ∃ e e', compile p options = .error e ∧ compile p' options = .error e' ∧
        e'.kind = e.kind := by
  have hgenerate : Lockstep r true (fun _ _ => True) Eq (generate p options)
      (generate p' options) :=
    (assemble_lockstep h hdebug).andThen fun abi => finish_lockstep.andThen fun words => .pure rfl
  -- nothing has an identity yet in the state that runs start from
  have hrun := hgenerate (.start options.version) (.start options.version) (.relabeled _)
  rw [compile_eq_verdict, compile_eq_verdict]
  generalize generate p options (.start options.version) = first at hrun
  generalize generate p' options (.start options.version) = second at hrun
  cases hrun with
  | error hkind => exact Or.inr ⟨_, _, rfl, rfl, hkind⟩
  | @ok result _ s t hresult hst =>
    cases hresult
    cases hst.same rfl
    have hsame : verdict options (.ok result (s.relabel r)) = verdict options (.ok result s) := rfl
    rw [hsame]
    cases verdict options (.ok result s) with
    | ok c => exact Or.inl ⟨c, rfl, rfl⟩
    | error e => exact Or.inr ⟨e, e, rfl, rfl, rfl⟩

end Program

/-- The functions of `doubling` the other way round, and the last two blocks of its kernel. -/
def exchanged : Relabeling where
  func
    | ⟨0⟩ => ⟨1⟩
    | ⟨1⟩ => ⟨0⟩
    | id => id
  block
    | ⟨⟨0⟩, 1⟩ => ⟨⟨1⟩, 2⟩
    | ⟨⟨0⟩, 2⟩ => ⟨⟨1⟩, 1⟩
    | ⟨⟨0⟩, k⟩ => ⟨⟨1⟩, k⟩
    | ⟨⟨1⟩, k⟩ => ⟨⟨0⟩, k⟩
    | id => id
  constant c := c

/-- As `doubling`, stored in another order and with other names, or none. -/
def doublingExchanged : Program where
  name := "d"
  funcs := [
    { name := "kernel"
      params := [some ⟨"", .int 32⟩]
      result := .int 32
      blocks := [
        ⟨"", none, [
          some (.convert (.param ⟨⟨0⟩, 0⟩) .unsigned (.int 32) .unsigned),
          some (.binary .add .unsigned (.result ⟨⟨⟨0⟩, 0⟩, 0⟩) (.param ⟨⟨0⟩, 0⟩)),
          some (.ret (.result ⟨⟨⟨0⟩, 0⟩, 1⟩))]⟩]
      order := [some 0] },
    { name := "twice"
      params := [some ⟨"x", .pointer (.int 32) .buffer⟩]
      result := .missing
      blocks := [
        ⟨"", none, [
          some (.localVar "x" (.int 32)),
          some (.load (.param ⟨⟨1⟩, 0⟩)),
          some (.store (.result ⟨⟨⟨1⟩, 0⟩, 1⟩) (.result ⟨⟨⟨1⟩, 0⟩, 0⟩)),
          some (.compare .lt .unsigned (.result ⟨⟨⟨1⟩, 0⟩, 1⟩) (.constant (.ofWord 100))),
          some (.condBranch (.result ⟨⟨⟨1⟩, 0⟩, 3⟩) (some ⟨⟨1⟩, 2⟩) (some ⟨⟨1⟩, 1⟩) none)]⟩,
        ⟨"small", none, [some (.ret .missing)]⟩,
        ⟨"done", none, [
          some (.call (some ⟨0⟩) [.result ⟨⟨⟨1⟩, 0⟩, 1⟩]),
          some (.store (.result ⟨⟨⟨1⟩, 2⟩, 0⟩) (.param ⟨⟨1⟩, 0⟩)),
          some (.branch (some ⟨⟨1⟩, 1⟩))]⟩]
      order := [some 0, some 2, some 1] }]
  order := [some 1, some 0]

theorem exchanged_faithful : exchanged.Faithful where
  func := by
    rintro ⟨_ | _ | j⟩ ⟨_ | _ | k⟩ h <;> simp_all [exchanged]
  block := by
    rintro ⟨⟨_ | _ | f⟩, _ | _ | _ | j⟩ ⟨⟨_ | _ | g⟩, _ | _ | _ | k⟩ h <;> simp_all [exchanged]
  constant _ := rfl

theorem doubling_corresponds : doubling.Corresponds exchanged doublingExchanged where
  faithful := exchanged_faithful
  listed := by repeat' first | exact rfl | constructor
  funcs := by
    rintro ⟨_ | _ | k⟩
    · exact .some ⟨by repeat' first | exact rfl | constructor, rfl,
        by repeat' first | exact rfl | constructor⟩
    · exact .some ⟨by repeat' first | exact rfl | constructor, rfl,
        by repeat' first | exact rfl | constructor⟩
    · exact .none
  blocks := by
    rintro ⟨⟨_ | _ | f⟩, _ | _ | _ | k⟩
    all_goals first
      | exact .none
      | exact .some ⟨rfl, by repeat' first | exact rfl | constructor⟩

theorem compile_corresponds_doubling : doubling.Corresponds exchanged doublingExchanged ∧
    ∃ c, compile doubling { validation := false } = .ok c ∧
      compile doublingExchanged { validation := false } = .ok c := by
  refine ⟨doubling_corresponds, ?_⟩
  have hok : (compile doubling { validation := false }).isOk = true := by decide +kernel
  obtain hsame | ⟨e, -, he, -, -⟩ :=
    compile_corresponds doubling_corresponds { validation := false } rfl
  · exact hsame
  · rw [he] at hok
    cases hok

end Elementwise.Spirv
