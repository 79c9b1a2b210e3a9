import TapeMachine.CommandLine.Execute
import TapeMachine.Proofs.Acceptance
import TapeMachine.Proofs.FileTrees
import TapeMachine.Proofs.SourceText

/-!
# Compiled files

A source file is read and checked before anything is written, so a file that is refused leaves all
files as they are. The one file that is written stands beside the source under a name that no source
file has, and it is read back to the program that the source compiles to.
-/

namespace TapeMachine

/-- The stored form of a program with the header is read back. -/
theorem deserialize_of_hasHeader {p : Program} (h : p.hasHeader = true) :
    deserialize (serialize p) = .ok p := by
  have htrim : Text.trimBlankBytes (serialize p) = serialize p := by
    have htext : ∀ b ∈ serialize p, Text.isBlankByte b = false :=
      fun b hb => Base64.not_blank_of_mem_encode hb
    simpa using Text.trimBlankBytes_append (List.forall_mem_nil _) htext (List.forall_mem_nil _)
  have hdecode : Base64.decode (Text.trimBlankBytes (serialize p)) =
      .ok (Json.writeBytes p.bytes.toList) := by
    rw [htrim]
    exact Base64.decode_eq_ok_iff.mpr rfl
  rw [deserialize_of_readBytes hdecode (Json.readBytes_writeBytes _),
    if_pos (Program.hasHeader_iff.mp h)]

namespace FileTree

variable {t t' : FileTree} {path : String} {source : String}

/-- A source file is compiled when it holds text with balanced brackets. -/
theorem compileSource_eq (hread : t.read path = .ok (Text.toBytes source)) :
    t.compileSource path =
      match checkBalanced source with
      | .error e => .error (.source e)
      | .ok () => .ok (compile source) := by
  rw [compileSource, readText, hread]
  dsimp only
  rw [Text.ofBytes?_eq_some_iff.mpr rfl]
  dsimp only
  rw [compileChecked]
  cases checkBalanced source <;> rfl

/-- A file that cannot be read is not compiled. -/
theorem compileSource_of_read_error {e : IoError} (hread : t.read path = .error e) :
    t.compileSource path = .error (.io e) := by
  rw [compileSource, readText, hread]

/-- A file that holds no text is not compiled. -/
theorem compileSource_of_not_text {bytes : List UInt8} (hread : t.read path = .ok bytes)
    (htext : ∀ text, bytes ≠ Text.toBytes text) : t.compileSource path = .error (.io .invalidUtf8) := by
  have hnone : Text.ofBytes? bytes = none := by
    rw [Option.eq_none_iff_forall_ne_some]
    exact fun text h => htext text (Text.ofBytes?_eq_some_iff.mp h)
  rw [compileSource, readText, hread]
  dsimp only
  rw [hnone]

/-- A source file is compiled when it can be and the stored program can be written. -/
theorem compileFile_of_write {p : Program} (hkind : Path.kind path = .source)
    (hcompile : t.compileSource path = .ok p)
    (hwrite : t.write (Path.storedPath path) (serialize p) = .ok t') :
    t.compileFile path = (.ok (Path.storedPath path), t') := by
  rw [compileFile, if_pos hkind, hcompile]
  dsimp only
  rw [writeProgram, hwrite]

/-- A program with the header is loaded from its stored form. -/
theorem loadProgram_of_stored {p : Program} (hkind : Path.kind path = .stored)
    (hread : t.read path = .ok (serialize p)) (hp : p.hasHeader = true) :
    t.loadProgram path = .ok p := by
  rw [loadProgram, hkind]
  dsimp only
  rw [readProgram, hread]
  dsimp only
  rw [deserialize_of_hasHeader hp]

/-- Compiling a file that fails leaves the files as they are: all that can be refused is looked at
before the stored program is written, and a file that cannot be written is not opened. -/
theorem compileFile_eq_of_error {e : Error} (h : (t.compileFile path).1 = .error e) :
    t.compileFile path = (.error e, t) := by
  refine Prod.ext h ?_
  rw [compileFile] at h ⊢
  by_cases hkind : Path.kind path = .source
  · rw [if_pos hkind] at h ⊢
    generalize t.compileSource path = compiled at h ⊢
    cases compiled with
    | error e' => rfl
    | ok p =>
      dsimp only at h ⊢
      generalize t.writeProgram (Path.storedPath path) p = written at h ⊢
      cases written with
      | error e' => rfl
      | ok t' => cases h
  · rw [if_neg hkind]

/-- A file that is not compiled: neither the command that would write a stored program nor the one
that compiles file after file changes anything. -/
structure Declined (t : FileTree) (path : String) (e : Error) : Prop where
  compile : t.compileFile path = (.error e, t)
  desk : ∀ colors rest (d : CommandLine.Desk), d.files = t →
    d.compileFiles colors (path :: rest) = (.error e, d)

/-- A file for which no stored program can be made leaves everything as it is. -/
theorem declined_of_compileFile {e : Error} (h : (t.compileFile path).1 = .error e) :
    Declined t path e := by
  have hsame := compileFile_eq_of_error h
  refine ⟨hsame, fun colors rest d hd => ?_⟩
  subst hd
  rw [CommandLine.Desk.compileFiles, hsame]

/-- A source file that cannot be compiled cannot be loaded either, for the same reason. -/
theorem declined_of_compileSource {e : Error} (hkind : Path.kind path = .source)
    (h : t.compileSource path = .error e) : Declined t path e ∧ t.loadProgram path = .error e := by
  refine ⟨declined_of_compileFile ?_, ?_⟩
  · rw [compileFile, if_pos hkind, h]
  · rw [loadProgram, hkind, h]

/-- The path of a source file that can be read ends in its extension, and where a file can be written
to the path of the stored program, that path ends in one more letter. -/
theorem written_of_read {bytes : List UInt8} (ht : t.Rooted) (hextension : Path.extension? path = some "bf")
    (hread : t.read path = .ok bytes)
    (hwritable : ∃ bytes t₁, t.write (Path.storedPath path) bytes = .ok t₁) :
    ∃ before stem, stem ≠ ['.'] ∧ Path.Written path.toList before stem ['b', 'f'] [] := by
  obtain ⟨before, stem, voids, hpath⟩ := (Path.extension?_eq_some_iff (by decide)).mp hextension
  obtain ⟨source, hsource, hfile⟩ := read_eq_ok_iff.mp hread
  obtain ⟨-, hdirectory⟩ := place_of_written hpath (by decide) hsource
  obtain rfl : voids = [] := by
    by_contra hvoids
    rw [hdirectory hvoids] at hfile
    cases hfile
  refine ⟨before, stem, ?_, hpath⟩
  rintro rfl
  -- The stored program would have to be written over the directory above.
  obtain ⟨bytes, t₁, hwrite⟩ := hwritable
  obtain ⟨place, hplace, hfree, -⟩ := write_eq_ok_iff.mp hwrite
  obtain ⟨-, here, hfollow, rfl⟩ := resolve_eq_ok_iff.mp hplace
  rw [Path.split_storedPath_of_dot hpath, List.map_append, follow_append_eq_ok_iff] at hfollow
  obtain ⟨directory, -, hback⟩ := hfollow
  obtain ⟨hdirectory, next, hturn, hend⟩ := follow_cons_eq_ok_iff.mp hback
  obtain rfl : directory.tail = next := Option.some.inj hturn
  obtain rfl : directory.tail = here := Except.ok.inj hend
  exact hfree (ht.directory_above hdirectory)

/-- What compiling a source file leaves behind: a stored program beside it, and everything else as it
was. -/
structure Compiled (t : FileTree) (path source output : String) (t' : FileTree) : Prop where
  output_eq : ∃ base, path = base ++ ".bf" ∧ output = base ++ ".bfc"
  home_eq : t'.home = t.home
  others : ∃ place, t.resolve output = .ok place ∧
    (∀ other ≠ place, t'.get? other = t.get? other) ∧
    ∀ other, t.resolve other ≠ .ok place → ∀ bytes, t'.read other = .ok bytes ↔ t.read other = .ok bytes
  sources : ∀ other, Path.extension? other = some "bf" → ∀ bytes,
    t'.read other = .ok bytes ↔ t.read other = .ok bytes
  load_output : t'.loadProgram output = .ok (compile source)
  load_path : t'.loadProgram path = .ok (compile source)
  again : t'.compileFile path = (.ok output, t')
  rooted : t'.Rooted

/-- A file is read back from where it was written, and files at other places are as they were. -/
theorem read_of_write {output : String} {place : List String} (bytes : List UInt8)
    (hne : place ≠ []) (hplace : t.resolve output = .ok place)
    (hfree : t.get? place ≠ some .directory) :
    (t.insert place (.file bytes)).read output = .ok bytes ∧
      ∀ other, t.resolve other ≠ .ok place → ∀ old,
        (t.insert place (.file bytes)).read other = .ok old ↔ t.read other = .ok old := by
  have hways := sameWays_insert hne hfree bytes
  refine ⟨read_eq_ok_iff.mpr ⟨place, hways.resolve.mpr hplace, ?_⟩, fun other hother old => ?_⟩
  · rw [get?_insert hne, if_pos rfl]
  · rw [read_eq_ok_iff, read_eq_ok_iff]
    refine exists_congr fun found => ?_
    rw [hways.resolve]
    refine and_congr_right fun hfound => ?_
    rw [get?_insert hne, if_neg]
    rintro rfl
    exact hother hfound

/-- A source file has another name than a stored program, and so another place. -/
theorem resolve_ne_of_source {output : String} {before : List (List Char)} {stem : List Char}
    {place : List String} (hextension : Path.extension? path = some "bf")
    (houtput : Path.Written output.toList before stem ['b', 'f', 'c'] [])
    (hplace : t.resolve output = .ok place) : t.resolve path ≠ .ok place := by
  intro hresolve
  obtain ⟨_, _, _, hpath⟩ := (Path.extension?_eq_some_iff (by decide)).mp hextension
  obtain ⟨⟨directory, hname, -⟩, -⟩ := place_of_written houtput (by decide) hplace
  obtain ⟨⟨directory', hname', -⟩, -⟩ := place_of_written hpath (by decide) hresolve
  have hnames := (List.append_inj' (hname.symm.trans hname') rfl).2
  have hlast := congrArg List.getLast? (String.ofList_inj.mp (List.singleton_inj.mp hnames))
  simp [List.getLast?_append] at hlast

/-- A balanced source file is compiled into a stored program beside it. -/
theorem compiled_of_balanced (ht : t.Rooted) (hextension : Path.extension? path = some "bf")
    (hread : t.read path = .ok (Text.toBytes source)) (hbalanced : checkBalanced source = .ok ())
    (hwritable : ∃ bytes t₁, t.write (Path.storedPath path) bytes = .ok t₁) :
    ∃ t', t.compileFile path = (.ok (Path.storedPath path), t') ∧
      Compiled t path source (Path.storedPath path) t' := by
  obtain ⟨before, stem, hstem, hpath⟩ := written_of_read ht hextension hread hwritable
  have hkind := Path.kind_eq_source_iff.mpr hextension
  have hstored := hpath.stored hstem
  have hstoredKind := Path.kind_eq_stored_of_extension?
    ((Path.extension?_eq_some_iff (by decide)).mpr ⟨before, stem, [], hstored⟩)
  obtain ⟨_, _, hwrite⟩ := hwritable
  obtain ⟨place, hplace, hfree, -⟩ := write_eq_ok_iff.mp hwrite
  obtain ⟨⟨directory, hname, hdirectory⟩, -⟩ := place_of_written hstored (by decide) hplace
  have hne : place ≠ [] := by simp [hname]
  let t' := t.insert place (.file (serialize (compile source)))
  have hways : SameWays t t' := sameWays_insert hne hfree _
  obtain ⟨hreadOutput, hothers⟩ := read_of_write (serialize (compile source)) hne hplace hfree
  have hsources {other : String} (hother : Path.extension? other = some "bf") :
      t.resolve other ≠ .ok place := resolve_ne_of_source hother hstored hplace
  have hloadPath : t'.compileSource path = .ok (compile source) := by
    have hsame := (hothers path (hsources hextension) _).mpr hread
    rw [compileSource_eq hsame, hbalanced]
  have hcompile : t.compileFile path = (.ok (Path.storedPath path), t') := by
    refine compileFile_of_write hkind ?_ (write_eq_ok_iff.mpr ⟨place, hplace, hfree, rfl⟩)
    rw [compileSource_eq hread, hbalanced]
  have hagain : t'.compileFile path = (.ok (Path.storedPath path), t') := by
    have hfile : t'.get? place ≠ some .directory := by
      rw [get?_insert hne, if_pos rfl]
      simp
    exact compileFile_of_write hkind hloadPath
      (write_eq_ok_iff.mpr ⟨place, hways.resolve.mpr hplace, hfile, insert_insert t place _⟩)
  have hrooted : t'.Rooted := by
    have hdirectories := ht.insert hdirectory (hname ▸ hfree) (serialize (compile source))
    rwa [← hname] at hdirectories
  exact ⟨t', hcompile, {
    output_eq := Path.exists_base hpath hstem
    home_eq := hways.home
    others := ⟨place, hplace, fun other hother => by rw [get?_insert hne, if_neg hother], hothers⟩
    sources := fun other hother => hothers other (hsources hother)
    load_output := loadProgram_of_stored hstoredKind hreadOutput (Program.hasHeader_ofOpcodes _)
    load_path := by rw [loadProgram, hkind]; exact hloadPath
    again := hagain
    rooted := hrooted }⟩

/-- What becomes of a file that is to be compiled: a source file with balanced brackets gets a stored
program beside it, from which the same program is loaded as from the source; any other file is
declined and nothing changes, and a source file that is declined cannot be loaded either. -/
theorem compileFile_by_content (t : FileTree) (path : String) :
    (Path.extension? path = some "bf" →
      (t.Rooted → ∀ source, t.read path = .ok (Text.toBytes source) → checkBalanced source = .ok () →
        (∃ bytes t₁, t.write (Path.storedPath path) bytes = .ok t₁) →
        (∃ t', t.compileFile path = (.ok (Path.storedPath path), t') ∧
          Compiled t path source (Path.storedPath path) t') ∧
        decompile (compile source) = String.ofList (source.toList.filter (· ∈ instructionChars))) ∧
      (∀ e, t.read path = .error e →
        Declined t path (.io e) ∧ t.loadProgram path = .error (.io e)) ∧
      (∀ bytes, t.read path = .ok bytes → (∀ text, bytes ≠ Text.toBytes text) →
        Declined t path (.io .invalidUtf8) ∧ t.loadProgram path = .error (.io .invalidUtf8)) ∧
      ∀ source e, t.read path = .ok (Text.toBytes source) → checkBalanced source = .error e →
        Declined t path (.source e) ∧ t.loadProgram path = .error (.source e)) ∧
    (Path.extension? path ≠ some "bf" → Declined t path (.unknownFileType path)) := by
  refine ⟨fun hextension => ?_, fun hextension => ?_⟩
  · have hkind := Path.kind_eq_source_iff.mpr hextension
    refine ⟨fun ht source hread hbalanced hwritable => ?_, fun e hread => ?_, fun bytes hread htext => ?_,
      fun source e hread hunbalanced => ?_⟩
    · exact ⟨compiled_of_balanced ht hextension hread hbalanced hwritable, decompile_compile source⟩
    · exact declined_of_compileSource hkind (compileSource_of_read_error hread)
    · exact declined_of_compileSource hkind (compileSource_of_not_text hread htext)
    · refine declined_of_compileSource hkind ?_
      rw [compileSource_eq hread, hunbalanced]
  · apply declined_of_compileFile
    rw [compileFile, if_neg (mt Path.kind_eq_source_iff.mp hextension)]

/-- A source file with a comment in a directory below home, a stored program that it replaces, and
files of each kind that is declined. -/
def sampleTree : FileTree :=
  { entries := [(["home"], .directory), (["home", "lib"], .directory),
      (["home", "lib", "a.b.bf"], .file (Text.toBytes "add +[-]")),
      (["home", "lib", "a.b.bfc"], .file [0]),
      (["home", "open.bf"], .file [91]), (["home", "raw.bf"], .file [255]),
      (["home", "a.txt"], .file [43])]
    home := ["home"] }

/-- A file with balanced brackets is compiled over the stored program beside it, and a file that is
missing, one that is not text, one with an open bracket and one with a foreign extension are
declined. -/
theorem compileFile_by_content_sample :
    (∃ t', sampleTree.compileFile "lib/a.b.bf" = (.ok "lib/a.b.bfc", t') ∧
      Compiled sampleTree "lib/a.b.bf" "add +[-]" "lib/a.b.bfc" t') ∧
    decompile (compile "add +[-]") = "+[-]" ∧
    Declined sampleTree "none.bf" (.io .notFound) ∧
    Declined sampleTree "raw.bf" (.io .invalidUtf8) ∧
    Declined sampleTree "open.bf" (.source ⟨.opening, 1, 1⟩) ∧
    Declined sampleTree "a.txt" (.unknownFileType "a.txt") := by
  have ht : sampleTree.Rooted := by decide
  have hall (path : String) := compileFile_by_content sampleTree path
  have hcompiled := ((hall "lib/a.b.bf").1 (by decide)).1 ht "add +[-]" (by rfl) (by rfl) ⟨[], _, rfl⟩
  have hraw (text : String) : [255] ≠ Text.toBytes text := by
    intro h
    have := Text.ofBytes?_eq_some_iff.mpr h
    have hnone : Text.ofBytes? [255] = none := by decide
    simp [hnone] at this
  refine ⟨hcompiled.1, hcompiled.2, ?_, ?_, ?_, ?_⟩
  · exact (((hall "none.bf").1 (by decide)).2.1 .notFound (by rfl)).1
  · exact (((hall "raw.bf").1 (by decide)).2.2.1 [255] (by rfl) hraw).1
  · exact (((hall "open.bf").1 (by decide)).2.2.2 "[" _ (by rfl) (by rfl)).1
  · exact (hall "a.txt").2 (by decide)

end FileTree

end TapeMachine
