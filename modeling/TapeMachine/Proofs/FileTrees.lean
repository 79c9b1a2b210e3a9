import TapeMachine.Files.Tree
import TapeMachine.Proofs.Paths

/-!
# Where paths lead

Which place a path leads to depends on the directories only, so writing a file changes no way. A path
that ends in a file name leads to a place of that name, in a directory; and as long as all entries
stand in directories, the way back from a directory leads to a directory.
-/

namespace TapeMachine.FileTree

variable {t t' : FileTree} {path : String} {place here : List String} {bytes : List UInt8}

/-- Changing the entries of one key changes what is found for that key only. -/
theorem lookup_map_entry (entries : List (List String × Entry)) (place other : List String)
    (entry : Entry) :
    (entries.map fun (key, old) => (key, if key = place then entry else old)).lookup other =
      (entries.lookup other).map fun old => if other = place then entry else old := by
  induction entries with
  | nil => rfl
  | cons first entries ih =>
    obtain ⟨key, old⟩ := first
    rw [List.map_cons, List.lookup_cons, List.lookup_cons]
    by_cases hkey : other = key
    · simp [hkey]
    · have hbeq : (other == key) = false := by simpa using hkey
      simp only [hbeq, ih]

/-- An entry is found where it was put, and everywhere else is what was there before. -/
theorem get?_insert (hplace : place ≠ []) (entry : Entry) (other : List String) :
    (t.insert place entry).get? other = if other = place then some entry else t.get? other := by
  by_cases hroot : other = []
  · subst hroot
    rw [if_neg (Ne.symm hplace)]
    rfl
  · have hfound (u : FileTree) : u.get? other = u.entries.lookup other := by
      simp [get?, hroot]
    rw [hfound, hfound, insert]
    split
    · next hold =>
      rw [lookup_map_entry]
      by_cases hother : other = place
      · obtain ⟨old, hlookup⟩ := Option.isSome_iff_exists.mp hold
        simp [hother, hlookup]
      · simp [hother]
    · next hold =>
      have hnone : t.entries.lookup place = none := Option.not_isSome_iff_eq_none.mp hold
      rw [List.lookup_append, List.lookup_cons]
      by_cases hother : other = place
      · simp [hother, hnone]
      · have hbeq : (other == place) = false := by simpa using hother
        simp [hbeq, hother]

/-- Putting an entry where it stands already changes nothing. -/
theorem insert_insert (t : FileTree) (place : List String) (entry : Entry) :
    (t.insert place entry).insert place entry = t.insert place entry := by
  have hsame (entries : List (List String × Entry)) :
      (entries.map fun (key, old) => (key, if key = place then entry else old)).map
          (fun (key, old) => (key, if key = place then entry else old)) =
        entries.map fun (key, old) => (key, if key = place then entry else old) := by
    rw [List.map_map]
    apply List.map_congr_left
    intro first _
    simp only [Function.comp_apply]
    split <;> rfl
  by_cases hold : (t.entries.lookup place).isSome
  · have hfirst : t.insert place entry =
        { t with entries := t.entries.map fun (key, old) => (key, if key = place then entry else old) } :=
      if_pos hold
    have hagain : (((t.insert place entry).entries).lookup place).isSome := by
      rw [hfirst, lookup_map_entry, Option.isSome_map]
      exact hold
    rw [insert, if_pos hagain, hfirst]
    simp only [hsame]
  · have hfirst : t.insert place entry = { t with entries := t.entries ++ [(place, entry)] } :=
      if_neg hold
    have hagain : (((t.insert place entry).entries).lookup place).isSome := by
      rw [hfirst, List.lookup_append, List.lookup_cons_self]
      simp
    have hkeys : ∀ first ∈ t.entries, first.1 ≠ place := by
      intro first hfirst heq
      exact hold (List.lookup_isSome_iff.mpr ⟨first, hfirst, by simp [heq]⟩)
    have hkept : t.entries.map (fun (key, old) => (key, if key = place then entry else old)) =
        t.entries := by
      refine (List.map_congr_left fun first hfirst => ?_).trans (List.map_id _)
      simp [hkeys first hfirst]
    rw [insert, if_pos hagain, hfirst]
    simp [hkept]

/-- Where a part of a path leads from a directory. -/
def turn? (part : String) (here : List String) : Option (List String) :=
  if part = "" ∨ part = "." then some here
  else if part = ".." then some here.tail
  else if maxNameBytes < part.utf8ByteSize then none
  else some (part :: here)

/-- A part can be followed from a directory, and to where it leads. -/
theorem follow_cons_eq_ok_iff {part : String} {parts : List String} :
    t.follow (part :: parts) here = .ok place ↔
      t.get? here.reverse = some .directory ∧
        ∃ next, turn? part here = some next ∧ t.follow parts next = .ok place := by
  rw [follow, turn?]
  cases t.get? here.reverse with
  | none => simp
  | some entry =>
    cases entry with
    | file bytes => simp
    | directory =>
      dsimp only
      split
      · simp
      · split
        · simp
        · split <;> simp

/-- A path is followed part by part. -/
theorem follow_append_eq_ok_iff {parts more : List String} :
    t.follow (parts ++ more) here = .ok place ↔
      ∃ next, t.follow parts here = .ok next ∧ t.follow more next = .ok place := by
  induction parts generalizing here with
  | nil => simp [follow]
  | cons part parts ih =>
    simp only [List.cons_append, follow_cons_eq_ok_iff, ih]
    constructor
    · rintro ⟨hdir, next, hturn, last, hparts, hmore⟩
      exact ⟨last, ⟨hdir, next, hturn, hparts⟩, hmore⟩
    · rintro ⟨last, ⟨hdir, next, hturn, hparts⟩, hmore⟩
      exact ⟨hdir, next, hturn, last, hparts, hmore⟩

/-- A path that leads somewhere is followed from the root or from the home directory. -/
theorem resolve_eq_ok_iff :
    t.resolve path = .ok place ↔
      ('\x00' ∉ path.toList ∧ path ≠ "" ∧ path.utf8ByteSize ≤ maxPathBytes) ∧
        ∃ here, t.follow ((Path.split path.toList).map String.ofList)
          (if path.toList.head? = some '/' then [] else t.home.reverse) = .ok here ∧
            here.reverse = place := by
  rw [resolve]
  generalize t.follow _ _ = followed
  split
  · next hnull => simp_all
  · next hnull =>
    split
    · next hempty => simp_all
    · next hempty =>
      split
      · next hlong => simp [Nat.not_le.mpr hlong]
      · next hshort =>
        have hne : path ≠ "" := by simpa using hempty
        have hnull : '\x00' ∉ path.toList := by simpa using hnull
        cases followed <;> simp [Except.map, hne, hnull, Nat.le_of_not_lt hshort]

/-- A file is read where its path leads to it. -/
theorem read_eq_ok_iff :
    t.read path = .ok bytes ↔ ∃ place, t.resolve path = .ok place ∧ t.get? place = some (.file bytes) := by
  rw [read]
  cases t.resolve path with
  | error e => simp
  | ok place =>
    dsimp only
    cases hentry : t.get? place with
    | none => simp [hentry]
    | some entry => cases entry <;> simp [hentry]

/-- A file is written where its path leads, unless a directory stands there. -/
theorem write_eq_ok_iff :
    t.write path bytes = .ok t' ↔
      ∃ place, t.resolve path = .ok place ∧ t.get? place ≠ some .directory ∧
        t.insert place (.file bytes) = t' := by
  rw [write]
  cases t.resolve path with
  | error e => simp
  | ok place =>
    dsimp only
    cases hentry : t.get? place with
    | none => simp [hentry]
    | some entry => cases entry <;> simp [hentry]

/-- Trees with the same home and with directories at the same places. -/
structure SameWays (t t' : FileTree) : Prop where
  home : t'.home = t.home
  directory : ∀ place, t'.get? place = some .directory ↔ t.get? place = some .directory

/-- Paths lead to the same places in trees with the same directories. -/
theorem SameWays.resolve (h : SameWays t t') :
    t'.resolve path = .ok place ↔ t.resolve path = .ok place := by
  have hfollow (parts : List String) (here place : List String) :
      t'.follow parts here = .ok place ↔ t.follow parts here = .ok place := by
    induction parts generalizing here with
    | nil => rfl
    | cons part parts ih => simp only [follow_cons_eq_ok_iff, h.directory, ih]
  rw [resolve_eq_ok_iff, resolve_eq_ok_iff, h.home]
  simp only [hfollow]

/-- Putting a file where no directory stands changes no way. -/
theorem sameWays_insert (hplace : place ≠ []) (hfree : t.get? place ≠ some .directory)
    (bytes : List UInt8) : SameWays t (t.insert place (.file bytes)) := by
  refine ⟨?_, fun other => ?_⟩
  · rw [insert]
    split <;> rfl
  · rw [get?_insert hplace]
    split
    · next hother => simp [hother, hfree]
    · rfl

/-- Every entry stands in a directory. -/
def Rooted (t : FileTree) : Prop := ∀ entry ∈ t.entries, t.get? entry.1.dropLast = some .directory

instance (t : FileTree) : Decidable t.Rooted :=
  inferInstanceAs (Decidable (∀ entry ∈ t.entries, t.get? entry.1.dropLast = some .directory))

/-- The way back from a directory leads to a directory. -/
theorem Rooted.directory_above (ht : t.Rooted) (h : t.get? here.reverse = some .directory) :
    t.get? here.tail.reverse = some .directory := by
  cases here with
  | nil => rfl
  | cons name here =>
    have hlookup : t.entries.lookup (here.reverse ++ [name]) = some .directory := by
      simpa [get?] using h
    obtain ⟨before, after, hentries, -⟩ := List.lookup_eq_some_iff.mp hlookup
    have habove := ht (here.reverse ++ [name], .directory) (by simp [hentries])
    simpa using habove

/-- All entries stand in directories after a file has been put into one. -/
theorem Rooted.insert (ht : t.Rooted) {name : String} {directory : List String}
    (hdirectory : t.get? directory = some .directory)
    (hfree : t.get? (directory ++ [name]) ≠ some .directory) (bytes : List UInt8) :
    (t.insert (directory ++ [name]) (.file bytes)).Rooted := by
  have hways := sameWays_insert (by simp) hfree bytes
  intro entry hentry
  rw [hways.directory]
  rw [FileTree.insert] at hentry
  split at hentry
  · obtain ⟨old, hold, rfl⟩ := List.mem_map.mp hentry
    exact ht old hold
  · rcases List.mem_append.mp hentry with hold | hnew
    · exact ht entry hold
    · obtain rfl : entry = _ := by simpa using hnew
      simpa using hdirectory

/-- A part that names nothing leads nowhere. -/
theorem turn?_of_isVoid {part : List Char} (h : Path.isVoid part = true) (here : List String) :
    turn? (String.ofList part) here = some here := by
  rcases Bool.or_eq_true_iff.mp h with hempty | hdot
  · rw [List.isEmpty_iff.mp hempty]
    rfl
  · rw [beq_iff_eq.mp hdot]
    rfl

/-- A file name leads to the place of that name. -/
theorem turn?_of_name {part : List Char} (hvoid : Path.isVoid part = false) (hdots : part ≠ ['.', '.'])
    {next : List String} (h : turn? (String.ofList part) here = some next) :
    next = String.ofList part :: here := by
  have hne {text : List Char} (hpart : part ≠ text) : String.ofList part ≠ String.ofList text :=
    fun heq => hpart (String.ofList_inj.mp heq)
  have hempty : part ≠ [] := by
    rintro rfl
    contradiction
  have hdot : part ≠ ['.'] := by
    rintro rfl
    contradiction
  rw [turn?, if_neg (not_or.mpr ⟨hne hempty, hne hdot⟩), if_neg (hne hdots)] at h
  split at h
  · contradiction
  · exact (Option.some.inj h).symm

/-- A path that is written with an extension leads to a place of its file name in a directory, and to
a directory when anything follows the file name. -/
theorem place_of_written {before voids : List (List Char)} {stem extension : List Char}
    (h : Path.Written path.toList before stem extension voids) (hextension : extension ≠ [])
    (hresolve : t.resolve path = .ok place) :
    (∃ directory, place = directory ++ [String.ofList (stem ++ '.' :: extension)] ∧
        t.get? directory = some .directory) ∧
      (voids ≠ [] → t.get? place = some .directory) := by
  obtain ⟨hvoid, hdots⟩ := Path.name_ne h.stem_ne hextension
  obtain ⟨-, here, hfollow, rfl⟩ := resolve_eq_ok_iff.mp hresolve
  rw [h.parts, List.map_append, List.map_cons, follow_append_eq_ok_iff] at hfollow
  obtain ⟨directory, -, hname⟩ := hfollow
  obtain ⟨hdirectory, next, hturn, hvoids⟩ := follow_cons_eq_ok_iff.mp hname
  have hnext := turn?_of_name hvoid hdots hturn
  -- The parts behind the file name stay where they are, which has to be a directory.
  have hstay (voids : List (List Char)) (hall : ∀ part ∈ voids, Path.isVoid part = true)
      (hfollow : t.follow (voids.map String.ofList) next = .ok here) :
      here = next ∧ (voids ≠ [] → t.get? next.reverse = some .directory) := by
    induction voids with
    | nil => exact ⟨(Except.ok.inj hfollow).symm, fun hne => absurd rfl hne⟩
    | cons part voids ih =>
      obtain ⟨hdir, after, hafter, hrest⟩ := follow_cons_eq_ok_iff.mp hfollow
      rw [turn?_of_isVoid (hall part List.mem_cons_self)] at hafter
      obtain rfl := Option.some.inj hafter
      exact ⟨(ih (fun part hpart => hall part (List.mem_cons_of_mem _ hpart)) hrest).1, fun _ => hdir⟩
  obtain ⟨rfl, hdir⟩ := hstay voids h.voids_void hvoids
  refine ⟨⟨directory.reverse, ?_, hdirectory⟩, hdir⟩
  rw [hnext, List.reverse_cons]

end TapeMachine.FileTree
