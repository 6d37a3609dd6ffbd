import SourceGen.Config.Load
import SourceGen.Proofs.Files
import SourceGen.Proofs.Toml.Numeral

/-! # The source of settings

The name of a source is shown and has no other effect: under two names the same document gives the
same settings, or the same problem at the same place. A file that can be read stands for its text.
Any other path ends in an error about the file, before a document is looked at. -/
namespace SourceGen

/-- The errors are about the same problem with a document, and each shows the name of its source. -/
structure LoadError.SameButSource (f g : Text) (e e' : LoadError) : Prop where
  problem : ∃ problem, e = .document f problem ∧ e' = .document g problem
  code : e.code = e'.code
  help : e.help = e'.help
  message : ∃ words, e.message = words ++ f ∧ e'.message = words ++ g

/-- The loads agree but for the names of their sources. One that succeeds leaves a record with the
name and the settings, one that fails leaves none. -/
inductive Load.SameButSource (f g : Text) : Load → Load → Prop where
  | loaded (c : BuilderConfig) : SameButSource f g
      { result := .ok c, logs := [c.loadRecord f] } { result := .ok c, logs := [c.loadRecord g] }
  | failed {e e' : LoadError} : e.SameButSource f g e' → SameButSource f g
      { result := .error e, logs := [] } { result := .error e', logs := [] }

theorem LoadError.sameButSource_document (f g : Text) (problem : Option (Problem × Nat × Nat)) :
    (document f problem).SameButSource f g (document g problem) where
  problem := ⟨problem, rfl, rfl⟩
  code := rfl
  help := rfl
  message := ⟨_, rfl, rfl⟩

namespace Text

theorem ofInt_injective {m n : Int} (h : ofInt m = ofInt n) : m = n := by
  have hm := Toml.integer?_ofInt m
  rw [h, Toml.integer?_ofInt] at hm
  exact (Option.some.inj (Option.some.inj hm)).symm

theorem equals_notMem_ofInt (n : Int) : '=' ∉ ofInt n := by
  intro h
  cases Toml.isNumeralChar_of_mem_ofInt h

theorem takeWhile_reverse_append_cons {c : Char} {x s : Text} (hs : c ∉ s) :
    (x ++ c :: s).reverse.takeWhile (· != c) = s.reverse := by
  have hp : ∀ a ∈ s.reverse, (a != c) = true := by
    intro a ha
    rw [bne_iff_ne]
    rintro rfl
    exact hs (List.mem_reverse.mp ha)
  rw [List.reverse_append, List.reverse_cons, List.append_assoc, List.takeWhile_append_of_pos hp]
  simp

/-- A text can be cut at its last `c` in one way only. -/
theorem eq_of_append_cons_eq {c : Char} {x y s t : Text} (hs : c ∉ s) (ht : c ∉ t)
    (h : x ++ c :: s = y ++ c :: t) : x = y ∧ s = t := by
  have hr := congrArg (fun l : Text => l.reverse.takeWhile (· != c)) h
  rw [takeWhile_reverse_append_cons hs, takeWhile_reverse_append_cons ht] at hr
  obtain rfl : s = t := List.reverse_injective hr
  exact ⟨List.append_cancel_right h, rfl⟩

end Text

theorem LineEnding.name_injective {e e' : LineEnding} (h : e.name = e'.name) : e = e' := by
  have ho := congrArg ofName? h
  rw [ofName?_name, ofName?_name] at ho
  exact Option.some.inj ho

theorem LineEnding.equals_notMem_name (e : LineEnding) : '=' ∉ e.name := by
  cases e <;> decide

namespace BuilderConfig

theorem text_loadRecord (c : BuilderConfig) (source : Text) :
    (c.loadRecord source).text =
      "loaded builder config from ".toList ++ source ++ ": indent_width".toList ++
        '=' :: Text.ofInt c.indentWidth ++ ", line_ending".toList ++ '=' :: c.lineEnding.name := by
  have hw : ": indent_width=".toList = ": indent_width".toList ++ ['='] := rfl
  have he : ", line_ending=".toList = ", line_ending".toList ++ ['='] := rfl
  simp only [loadRecord, hw, he, List.append_assoc, List.cons_append, List.nil_append]

/-- The record tells the source and the settings: the line ending stands behind the last equals sign,
the width behind the one before it, and the source in front of that. -/
theorem loadRecord_injective {c c' : BuilderConfig} {f g : Text}
    (h : c.loadRecord f = c'.loadRecord g) : c = c' ∧ f = g := by
  have ht := congrArg LogRecord.text h
  rw [text_loadRecord, text_loadRecord] at ht
  obtain ⟨hfront, hname⟩ := Text.eq_of_append_cons_eq (LineEnding.equals_notMem_name _)
    (LineEnding.equals_notMem_name _) ht
  obtain ⟨hsource, hwidth⟩ := Text.eq_of_append_cons_eq (Text.equals_notMem_ofInt _)
    (Text.equals_notMem_ofInt _) (List.append_cancel_right hfront)
  have hc : c = c' := by
    cases c
    cases c'
    exact congrArg₂ mk (Text.ofInt_injective hwidth) (LineEnding.name_injective hname)
  exact ⟨hc, List.append_cancel_left (List.append_cancel_right hsource)⟩

theorem load_sameButSource (document f g : Text) :
    (load document f).SameButSource f g (load document g) := by
  unfold load
  cases ofDocument document with
  | ok c => exact .loaded c
  | error problem => exact .failed (LoadError.sameButSource_document f g problem)

theorem loadFile_of_holds {fs : FileSystem} {path document : Text} (h : fs.Holds path document) :
    loadFile fs path = load document path := by
  rw [loadFile, FileSystem.read_eq_ok_iff.mpr h]

theorem loadFile_of_not_holds {fs : FileSystem} {path : Text}
    (h : ∀ document, ¬fs.Holds path document) :
    ∃ e, fs.read path = .error e ∧
      loadFile fs path = { result := .error (.io path e), logs := [] } := by
  cases hr : fs.read path with
  | ok document => exact absurd (FileSystem.read_eq_ok_iff.mp hr) (h document)
  | error e => exact ⟨e, rfl, by rw [loadFile, hr]⟩

/-- The name of the source is shown in records and errors, and changes nothing else. A path that
names a file of UTF-8 text stands for the text; in a tree, the names of the path lead to that file.
Any other path gives an error about the file, and no record. -/
theorem source_is_only_shown :
    (∀ document f g : Text, (load document f).SameButSource f g (load document g)) ∧
    (∀ (c c' : BuilderConfig) (f g : Text), (c.loadRecord f).level = .debug ∧
      (c.loadRecord f = c'.loadRecord g → c = c' ∧ f = g)) ∧
    (∀ (fs : FileSystem) (path : Text),
      (∀ document, fs.Holds path document → loadFile fs path = load document path) ∧
      ((∀ document, ¬fs.Holds path document) → ∃ e, fs.read path = .error e ∧
        loadFile fs path = { result := .error (.io path e), logs := [] })) ∧
    (∀ (tree : FileTree) (path document : Text),
      tree.fileSystem.Holds path document ↔ tree.Names path document.utf8Encode) := by
  refine ⟨load_sameButSource, ?_, ?_, ?_⟩
  · intro c c' f g
    exact ⟨rfl, loadRecord_injective⟩
  · intro fs path
    exact ⟨fun _ => loadFile_of_holds, loadFile_of_not_holds⟩
  · intro tree path document
    exact FileTree.bytes_eq_ok_iff

theorem source_is_only_shown_files :
    ∃ fs : FileSystem, fs = .ofFiles [("größe/a".toList, .file "[builder]\nindent_width=99".toUTF8),
        ("b".toList, .file ⟨#[0x23, 0xff]⟩)] ∧
      fs.Holds "./größe//../größe/a".toList "[builder]\nindent_width=99".toList ∧
      loadFile fs "./größe//../größe/a".toList =
        load "[builder]\nindent_width=99".toList "./größe//../größe/a".toList ∧
      (∀ document, ¬fs.Holds "b".toList document) ∧
      ∃ e, fs.read "b".toList = .error e ∧
        loadFile fs "b".toList = { result := .error (.io "b".toList e), logs := [] } := by
  obtain ⟨fs, hfs⟩ : ∃ fs : FileSystem, fs = .ofFiles
      [("größe/a".toList, .file "[builder]\nindent_width=99".toUTF8),
        ("b".toList, .file ⟨#[0x23, 0xff]⟩)] := ⟨_, rfl⟩
  have ha : fs.Holds "./größe//../größe/a".toList "[builder]\nindent_width=99".toList := by
    rw [hfs, FileSystem.Holds]
    decide +kernel
  have hb : fs.read "b".toList = .error .invalidData := by
    rw [hfs]
    decide +kernel
  have hn : ∀ document, ¬fs.Holds "b".toList document := by
    intro document hd
    rw [← FileSystem.read_eq_ok_iff, hb] at hd
    cases hd
  obtain ⟨-, -, hf, -⟩ := source_is_only_shown
  exact ⟨fs, hfs, ha, (hf fs _).1 _ ha, hn, (hf fs _).2 hn⟩

end BuilderConfig

end SourceGen
