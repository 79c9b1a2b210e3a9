import Mathlib.Data.List.DropRight
import TapeMachine.Files.Path

/-!
# Paths of source files and of stored programs

Splitting a path at its slashes loses nothing, so a path is known by its parts. A path has an
extension when, but for parts that name nothing, its last part is a stem, a dot and the extension.
If no such parts follow, the path of the stored program is the path of the source file with one more
letter; only a file name that starts with two dots can spoil this, since cutting its extension off
leaves the way back to the directory above.
-/

namespace TapeMachine.Path

/-- Splitting a path is splitting a list at its slashes. -/
theorem split_eq_splitOn (cs : List Char) : split cs = cs.splitOn '/' := by
  induction cs with
  | nil => rfl
  | cons c cs ih =>
    rw [split, List.splitOn_cons_eq_if_modifyHead, ih]
    by_cases hc : c = '/'
    · simp [hc]
    · cases hparts : cs.splitOn '/' with
      | nil => exact absurd hparts (List.splitOn_ne_nil '/' cs)
      | cons part parts => simp [hc]

/-- Putting the slashes back gives the path. -/
theorem join_split (cs : List Char) : join (split cs) = cs := by
  rw [split_eq_splitOn, join, List.intercalate_splitOn]

/-- A path that is put together from parts without slashes splits into these parts. -/
theorem split_join {parts : List (List Char)} (hparts : ∀ part ∈ parts, '/' ∉ part)
    (hne : parts ≠ []) : split (join parts) = parts := by
  rw [split_eq_splitOn, join, List.splitOn_intercalate '/' hparts hne]

/-- No slash is left in a part. -/
theorem slash_not_mem_of_mem_split {cs part : List Char} (h : part ∈ split cs) : '/' ∉ part := by
  induction cs generalizing part with
  | nil =>
    obtain rfl : part = [] := by simpa [split] using h
    exact List.not_mem_nil
  | cons c cs ih =>
    rw [split] at h
    split at h
    · rcases List.mem_cons.mp h with rfl | h
      · exact List.not_mem_nil
      · exact ih h
    · next hc =>
      split at h
      · obtain rfl : part = [c] := by simpa using h
        simpa using Ne.symm hc
      · next first rest hsplit =>
        rcases List.mem_cons.mp h with rfl | h
        · have hfirst : '/' ∉ first := ih (hsplit ▸ List.mem_cons_self)
          simpa [Ne.symm hc] using hfirst
        · exact ih (hsplit ▸ List.mem_cons_of_mem _ h)

/-- Text behind the last part belongs to the last part. -/
theorem join_snoc (before : List (List Char)) (last text : List Char) :
    join (before ++ [last ++ text]) = join (before ++ [last]) ++ text := by
  induction before with
  | nil => simp [join]
  | cons part before ih =>
    have hne (part : List Char) : before ++ [part] ≠ [] := by simp
    simp only [join, List.cons_append] at ih ⊢
    rw [List.intercalate_cons_of_ne_nil (hne _), List.intercalate_cons_of_ne_nil (hne _), ih]
    simp only [List.append_assoc]

/-- The last part of a path can be cut short. -/
theorem split_snoc {before : List (List Char)} {path : List Char} (last text : List Char)
    (h : split path = before ++ [last ++ text]) :
    path = join (before ++ [last]) ++ text ∧
      split (join (before ++ [last])) = before ++ [last] := by
  have hslash {part : List Char} (hpart : part ∈ before ++ [last ++ text]) : '/' ∉ part :=
    slash_not_mem_of_mem_split (h ▸ hpart)
  refine ⟨?_, split_join (fun part hpart => ?_) (by simp)⟩
  · rw [← join_snoc, ← h, join_split]
  · rcases List.mem_append.mp hpart with hpart | hpart
    · exact hslash (List.mem_append_left _ hpart)
    · obtain rfl : part = last := by simpa using hpart
      have hlast : '/' ∉ part ++ text := hslash (by simp)
      exact fun hmem => hlast (List.mem_append_left _ hmem)

/-- The last part of a path can be made longer. -/
theorem split_append {before : List (List Char)} {path last text : List Char}
    (h : split path = before ++ [last]) (htext : '/' ∉ text) :
    split (path ++ text) = before ++ [last ++ text] := by
  have hslash {part : List Char} (hpart : part ∈ before ++ [last]) : '/' ∉ part :=
    slash_not_mem_of_mem_split (h ▸ hpart)
  rw [← join_split path, h, ← join_snoc]
  refine split_join (fun part hpart => ?_) (by simp)
  rcases List.mem_append.mp hpart with hpart | hpart
  · exact hslash (List.mem_append_left _ hpart)
  · obtain rfl : part = last ++ text := by simpa using hpart
    have hlast : '/' ∉ last := hslash (by simp)
    simpa using ⟨hlast, htext⟩

/-- The file name is the last part but for parts that name nothing, unless it is a pair of dots. -/
theorem locate?_eq_some_iff {path name : List Char} {before : List (List Char)} :
    locate? path = some (before, name) ↔
      isVoid name = false ∧ name ≠ ['.', '.'] ∧
        ∃ voids, split path = before ++ name :: voids ∧ ∀ part ∈ voids, isVoid part = true := by
  have hparts : split path = ((split path).reverse.dropWhile isVoid).reverse ++
      ((split path).reverse.takeWhile isVoid).reverse := by
    rw [← List.reverse_append, List.takeWhile_append_dropWhile, List.reverse_reverse]
  unfold locate?
  refine ⟨fun h => ?_, fun h => ?_⟩
  · split at h
    · contradiction
    · next last rest hlast =>
      split at h
      · contradiction
      · next hdots =>
        obtain ⟨rfl, rfl⟩ : rest.reverse = before ∧ last = name := by simpa using h
        refine ⟨?_, by simpa using hdots, ((split path).reverse.takeWhile isVoid).reverse, ?_, ?_⟩
        · have hhead := (split path).reverse.head?_dropWhile_not isVoid
          rw [hlast] at hhead
          simpa using hhead
        · rw [hlast] at hparts
          simpa using hparts
        · intro part hpart
          exact List.mem_takeWhile_imp (List.mem_reverse.mp hpart)
  · obtain ⟨hname, hdots, voids, hsplit, hvoids⟩ := h
    have hdrop : (split path).reverse.dropWhile isVoid = name :: before.reverse := by
      rw [hsplit, List.reverse_append, List.reverse_cons, List.append_assoc,
        List.dropWhile_append_of_pos (by simpa using hvoids)]
      exact List.dropWhile_cons_of_neg (by simp [hname])
    rw [hdrop]
    simp [hdots]

/-- A name without a dot has no extension. -/
theorem splitName_of_not_mem {name : List Char} (h : '.' ∉ name) : splitName name = (name, none) := by
  have hall : ∀ c ∈ name.reverse, decide (c ≠ '.') = true := by
    intro c hc
    rw [decide_eq_true_iff]
    exact fun heq => h (heq ▸ List.mem_reverse.mp hc)
  rw [splitName, List.dropWhile_eq_nil_iff.mpr hall]
  rfl

/-- A name is split at its last dot, unless that dot comes first. -/
theorem splitName_append (stem : List Char) {extension : List Char} (h : '.' ∉ extension) :
    splitName (stem ++ '.' :: extension) =
      if stem = [] then ('.' :: extension, none) else (stem, some extension) := by
  have hall : ∀ c ∈ extension.reverse, decide (c ≠ '.') = true := by
    intro c hc
    rw [decide_eq_true_iff]
    exact fun heq => h (heq ▸ List.mem_reverse.mp hc)
  rw [splitName, List.reverse_append, List.reverse_cons, List.append_assoc,
    List.takeWhile_append_of_pos hall, List.dropWhile_append_of_pos hall]
  cases stem with
  | nil => simp
  | cons c cs =>
    have hcut : (c :: (cs ++ ['.'])).dropLast = c :: cs := by
      rw [← List.cons_append, List.dropLast_concat]
    simp [hcut]

/-- A name with a stem and an extension is the two with the last dot between them. -/
theorem splitName_eq_some_iff {name stem extension : List Char} :
    splitName name = (stem, some extension) ↔
      name = stem ++ '.' :: extension ∧ stem ≠ [] ∧ '.' ∉ extension := by
  refine ⟨fun h => ?_, fun h => ?_⟩
  · by_cases hmem : '.' ∈ name
    · obtain ⟨after, before, hreverse, hdot⟩ := List.eq_append_cons_of_mem (List.mem_reverse.mpr hmem)
      have hname : name = before.reverse ++ '.' :: after.reverse := by
        rw [← List.reverse_reverse name, hreverse]
        simp
      have hdot : '.' ∉ after.reverse := mt List.mem_reverse.mp hdot
      rw [hname, splitName_append _ hdot] at h
      split at h
      · simp at h
      · next hstem =>
        obtain ⟨rfl, rfl⟩ : before.reverse = stem ∧ after.reverse = extension := by simpa using h
        exact ⟨hname, hstem, hdot⟩
    · rw [splitName_of_not_mem hmem] at h
      simp at h
  · obtain ⟨rfl, hstem, hdot⟩ := h
    rw [splitName_append _ hdot, if_neg hstem]

/-- A path and the way it is written: the parts before the file name, the stem of the file name, its
extension, and the parts behind it, which name nothing. -/
structure Written (path : List Char) (before : List (List Char)) (stem extension : List Char)
    (voids : List (List Char)) : Prop where
  parts : split path = before ++ (stem ++ '.' :: extension) :: voids
  stem_ne : stem ≠ []
  dot_not_mem : '.' ∉ extension
  voids_void : ∀ part ∈ voids, isVoid part = true

/-- A file name with an extension names something, and is not a pair of dots. -/
theorem name_ne {stem extension : List Char} (hstem : stem ≠ []) (hextension : extension ≠ []) :
    isVoid (stem ++ '.' :: extension) = false ∧ stem ++ '.' :: extension ≠ ['.', '.'] := by
  have hstem := List.length_pos_iff.mpr hstem
  have hextension := List.length_pos_iff.mpr hextension
  have hlength : 2 < (stem ++ '.' :: extension).length := by
    simp only [List.length_append, List.length_cons]
    omega
  refine ⟨Bool.eq_false_iff.mpr fun hvoid => ?_, fun heq => ?_⟩
  · rcases Bool.or_eq_true_iff.mp hvoid with hempty | hdot
    · rw [List.isEmpty_iff.mp hempty] at hlength
      contradiction
    · rw [beq_iff_eq.mp hdot] at hlength
      contradiction
  · rw [heq] at hlength
    contradiction

/-- A path has an extension exactly when it is written with it. -/
theorem extension?_eq_some_iff {path extension : String} (hextension : extension ≠ "") :
    extension? path = some extension ↔
      ∃ before stem voids, Written path.toList before stem extension.toList voids := by
  have hne : extension.toList ≠ [] := by simpa using hextension
  unfold extension?
  refine ⟨fun h => ?_, fun h => ?_⟩
  · split at h
    · contradiction
    · next before name hlocate =>
      obtain ⟨-, -, voids, hsplit, hvoids⟩ := locate?_eq_some_iff.mp hlocate
      obtain ⟨text, htext, rfl⟩ := Option.map_eq_some_iff.mp h
      have hname : splitName name = ((splitName name).1, some text) := Prod.ext rfl htext
      obtain ⟨hname, hstem, hdot⟩ := splitName_eq_some_iff.mp hname
      rw [hname] at hsplit
      exact ⟨before, _, voids, by simpa using hsplit, hstem, by simpa using hdot, hvoids⟩
  · obtain ⟨before, stem, voids, hpath⟩ := h
    obtain ⟨hvoid, hdots⟩ := name_ne hpath.stem_ne hne
    rw [locate?_eq_some_iff.mpr ⟨hvoid, hdots, voids, hpath.parts, hpath.voids_void⟩]
    dsimp only
    rw [splitName_eq_some_iff.mpr ⟨rfl, hpath.stem_ne, hpath.dot_not_mem⟩]
    simp

/-- Source files are those with their extension. -/
theorem kind_eq_source_iff {path : String} : kind path = .source ↔ extension? path = some "bf" := by
  unfold kind
  split
  · next e he =>
    by_cases h : e = sourceExtension
    · simp [he, h, sourceExtension]
    · by_cases h' : e = storedExtension
      · simp [he, h', sourceExtension, storedExtension]
      · simp only [he, h, h', ↓reduceIte, reduceCtorEq, Option.some.injEq, false_iff]
        exact h
  · next he => simp [he]

/-- A path that is written with the extension of stored programs leads to a stored program. -/
theorem kind_eq_stored_of_extension? {path : String} (h : extension? path = some "bfc") :
    kind path = .stored := by
  rw [kind, h]
  rfl

/-- The extension of stored programs is put behind what cutting the old extension off leaves: the
stem with its dot. -/
theorem toList_storedPath {path : String} {before : List (List Char)} {stem : List Char}
    (h : Written path.toList before stem ['b', 'f'] []) :
    (storedPath path).toList = setExtension (join (before ++ [stem ++ ['.']])) storedExtension := by
  have hextension : extension? path = some "bf" :=
    (extension?_eq_some_iff (by decide)).mpr ⟨before, stem, [], h⟩
  have hpath := (split_snoc (stem ++ ['.']) ['b', 'f'] (by simpa using h.parts)).1
  have hcut : path.toList.take (path.length - 2) = join (before ++ [stem ++ ['.']]) := by
    rw [← String.length_toList, hpath]
    simp
  have hlength : "bf".length = 2 := by decide
  rw [storedPath, withExtension, hextension, Option.getD_some, hlength, hcut, String.toList_ofList]

/-- The path of the stored program beside a source file has one more letter, unless the stem of the
file name is a single dot. -/
theorem storedPath_eq {path : String} {before : List (List Char)} {stem : List Char}
    (h : Written path.toList before stem ['b', 'f'] []) (hstem : stem ≠ ['.']) :
    storedPath path = path ++ "c" := by
  obtain ⟨hpath, hbase⟩ := split_snoc (stem ++ ['.']) ['b', 'f'] (by simpa using h.parts)
  have hvoid : isVoid (stem ++ ['.']) = false := by
    cases stem with
    | nil => exact absurd rfl h.stem_ne
    | cons c cs => simp [isVoid]
  have hdots : stem ++ ['.'] ≠ ['.', '.'] := fun heq => hstem (List.append_cancel_right heq)
  have hlocate := locate?_eq_some_iff.mpr ⟨hvoid, hdots, [], hbase, by simp⟩
  have hname := splitName_eq_some_iff.mpr ⟨rfl, h.stem_ne, List.not_mem_nil⟩
  rw [← String.toList_inj, toList_storedPath h, setExtension, hlocate, String.toList_append, hpath]
  dsimp only
  rw [hname, join_snoc]
  simp [storedExtension]

/-- The path of the stored program is that of the source file with another extension. -/
theorem exists_base {path : String} {before : List (List Char)} {stem : List Char}
    (h : Written path.toList before stem ['b', 'f'] []) (hstem : stem ≠ ['.']) :
    ∃ base, path = base ++ ".bf" ∧ storedPath path = base ++ ".bfc" := by
  have hpath : path = String.ofList (join (before ++ [stem])) ++ ".bf" := by
    rw [← String.toList_inj, String.toList_append, String.toList_ofList]
    exact (split_snoc stem _ h.parts).1
  refine ⟨_, hpath, ?_⟩
  rw [storedPath_eq h hstem]
  conv_lhs => rw [hpath]
  rw [String.append_assoc]
  rfl

/-- The path of the stored program ends in the same stem. -/
theorem Written.stored {path : String} {before : List (List Char)} {stem : List Char}
    (h : Written path.toList before stem ['b', 'f'] []) (hstem : stem ≠ ['.']) :
    Written (storedPath path).toList before stem ['b', 'f', 'c'] [] := by
  refine ⟨?_, h.stem_ne, by decide, by simp⟩
  rw [storedPath_eq h hstem, String.toList_append, split_append h.parts (by decide)]
  simp

/-- With a single dot for a stem, the path of the stored program is the way back to the directory
above. -/
theorem split_storedPath_of_dot {path : String} {before : List (List Char)}
    (h : Written path.toList before ['.'] ['b', 'f'] []) :
    split (storedPath path).toList = before ++ [['.', '.']] := by
  obtain ⟨-, hbase⟩ := split_snoc ['.', '.'] ['b', 'f'] h.parts
  have hnone : locate? (join (before ++ [['.', '.']])) = none := by
    rw [locate?, hbase]
    simp [isVoid]
  rw [toList_storedPath h, List.singleton_append, setExtension, hnone, hbase]

end TapeMachine.Path
