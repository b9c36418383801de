import Elementwise.OutputPath
import Mathlib.Data.List.Nodup
import Mathlib.Data.List.TakeWhile

/-!
# Files for kernels

A kernel is written to a file named after its input, whose directory and extension are dropped, so
that kernels have files of their own exactly if the names that are left are distinct.
-/
namespace Elementwise

namespace Path

variable {name : String}

/-- The text is a component of its own. -/
structure IsName (s : String) : Prop where
  ne : s ≠ "" ∧ s ≠ "." ∧ s ≠ ".."
  noSlash : '/' ∉ s.toList

theorem split_name {name : List Char} (h : '/' ∉ name) : split name = [name] := by
  induction name with
  | nil => rfl
  | cons c rest ih =>
    obtain ⟨hc, hrest⟩ := List.ne_and_not_mem_of_not_mem_cons h
    rw [split, ih hrest]
    exact Ne.symm hc

theorem split_append {name : List Char} (h : '/' ∉ name) (cs : List Char) :
    ∃ p ps, split (cs ++ '/' :: name) = p :: (ps ++ [name]) := by
  induction cs with
  | nil => exact ⟨[], [], by simp [split, split_name h]⟩
  | cons c rest ih =>
    obtain ⟨p, ps, ih⟩ := ih
    by_cases hc : c = '/'
    · exact ⟨[], p :: ps, by simp [split, hc, ih]⟩
    · refine ⟨c :: p, ps, ?_⟩
      rw [List.cons_append, split, ih]
      exact hc

theorem components_name (h : IsName name) : components name = [name] := by
  simp [components, split_name h.noSlash]

theorem getLast?_components (h : IsName name) (dir : String) :
    (components (dir ++ "/" ++ name)).getLast? = some name := by
  obtain ⟨p, ps, hsplit⟩ := split_append h.noSlash dir.toList
  have htext : (dir ++ "/" ++ name).toList = dir.toList ++ '/' :: name.toList := by simp
  rw [components, htext, hsplit, ← List.cons_append, List.map_append, List.map_singleton,
    String.ofList_toList, List.getLast?_concat]

/-- Cleaning keeps a name at the end. -/
theorem getLast?_clean (h : IsName name) {path : String}
    (hpath : (components path).getLast? = some name) :
    (components (clean path)).getLast? = some name := by
  obtain ⟨before, hbefore⟩ := List.getLast?_eq_some_iff.1 hpath
  obtain ⟨hempty, hpoint, hpoints⟩ := h.ne
  have hstep : ∀ rooted cleaned, step rooted cleaned name = name :: cleaned := by
    intro rooted cleaned
    simp [step, hempty, hpoint, hpoints]
  rw [clean, hbefore, List.foldl_append, List.foldl_cons, List.foldl_nil, hstep, List.reverse_cons]
  generalize (before.foldl _ []).reverse = ys
  have hbody : "/".intercalate (ys ++ [name]) = name ∨
      ∃ dir, "/".intercalate (ys ++ [name]) = dir ++ "/" ++ name := by
    cases ys with
    | nil => exact .inl String.intercalate_singleton
    | cons y ys =>
      refine .inr ⟨"/".intercalate (y :: ys), ?_⟩
      rw [String.intercalate_append_of_ne_nil (by simp) (by simp), String.intercalate_singleton]
  rcases hbody with hbody | ⟨dir, hbody⟩ <;> rw [hbody] <;> cases isAbsolute path
  · simp [hempty, components_name h]
  · exact getLast?_components h ""
  · simpa [hempty] using getLast?_components h dir
  · simpa [String.append_assoc] using getLast?_components h ("/" ++ dir)

theorem getLast?_join (h : IsName name) (dir : String) :
    (components (join dir name)).getLast? = some name := by
  have hname := h.ne.1
  by_cases hdir : dir = ""
  · simpa [join, hdir, hname] using getLast?_clean h (by simp [components_name h])
  · simpa [join, hdir, hname] using getLast?_clean h (getLast?_components h dir)

/-- An input with an extension gives its kernel a name. -/
theorem isName_stem {path : String} (h : extension path ≠ "") : IsName (stem path ++ ".spv") := by
  have hbase : '/' ∉ (base path).toList := by
    unfold base
    split
    · decide
    split
    next hslashes =>
      rw [List.dropWhile_eq_nil_iff] at hslashes
      have hlast : path.toList.reverse.takeWhile (· != '/') = [] := by
        cases hcs : path.toList.reverse with
        | nil => rfl
        | cons c cs => exact List.takeWhile_cons_of_neg (by simpa using hslashes c (by simp [hcs]))
      simp [extension, hlast] at h
    next =>
      rw [String.toList_ofList, List.mem_reverse]
      intro hmem
      simpa using List.mem_takeWhile_imp hmem
  have hstem : '/' ∉ (stem path).toList := by
    unfold stem dropEnding
    split
    · rw [String.toList_ofList]
      exact fun hmem => hbase (List.mem_of_mem_take hmem)
    · exact hbase
  refine ⟨?_, by simpa using hstem⟩
  have hlength : (stem path ++ ".spv").length = (stem path).length + 4 := String.length_append ..
  refine ⟨?_, ?_, ?_⟩ <;> intro heq <;> rw [heq] at hlength <;> cases hlength

end Path

/-- Kernels get distinct paths exactly if their inputs have distinct names. -/
theorem nodup_outputPaths_iff {inputs : List String} {output outputDir : String}
    (h : ∀ i ∈ inputs, Path.extension i ≠ "") :
    (outputPaths inputs output outputDir).Nodup ↔ (inputs.map Path.stem).Nodup := by
  unfold outputPaths
  split
  next hone =>
    simp only [Bool.and_eq_true, beq_iff_eq] at hone
    obtain ⟨input, rfl⟩ := List.length_eq_one_iff.1 hone.1.2
    simp
  · generalize (if output.isEmpty then outputDir else output) = dir
    have hmap : inputs.map (kernelPath dir) =
        (inputs.map Path.stem).map fun stem => Path.join dir (stem ++ ".spv") := by
      rw [List.map_map]
      rfl
    rw [hmap]
    refine ⟨List.Nodup.of_map _, fun hnodup => (List.nodup_map_iff_inj_on hnodup).2 ?_⟩
    simp only [List.forall_mem_map]
    intro i hi j hj heq
    have hlast := Path.getLast?_join (Path.isName_stem (h i hi)) dir
    rw [heq, Path.getLast?_join (Path.isName_stem (h j hj)) dir] at hlast
    simpa using hlast.symm

theorem nodup_outputPaths_named :
    (outputPaths ["a/k.yaml", "b/l.yaml"] "" "out").Nodup :=
  (nodup_outputPaths_iff (by decide +kernel)).2 (by decide +kernel)

/-- Distinct inputs may have one name. -/
theorem outputPaths_coincide : ["a/k.yaml", "b/k.yaml"].Nodup ∧
    outputPaths ["a/k.yaml", "b/k.yaml"] "" "." = ["k.spv", "k.spv"] := by
  decide +kernel

end Elementwise
