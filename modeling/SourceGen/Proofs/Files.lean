import Mathlib.Data.List.Basic
import SourceGen.Files

/-! # Which files paths name

A path in a tree names a file if its names lead there, one directory after the other. That is said
here without the walk that finds the file or the first obstacle. The walk finds just these files. -/
namespace SourceGen

namespace FileSystem

/-- The path names a file that can be read, and the document is its text. -/
def Holds (fs : FileSystem) (path document : Text) : Prop :=
  fs.bytes path = .ok document.utf8Encode

theorem fromUTF8?_utf8Encode (document : Text) :
    String.fromUTF8? document.utf8Encode = some (String.ofList document) :=
  dif_pos (.intro document rfl)

theorem eq_utf8Encode_of_fromUTF8? {content : ByteArray} {s : String}
    (h : String.fromUTF8? content = some s) : content = s.toList.utf8Encode := by
  unfold String.fromUTF8? at h
  split at h
  · next hv =>
    cases h
    exact (String.utf8Encode_toList (b := String.fromUTF8 content hv)).symm
  · cases h

theorem read_eq_ok_iff {fs : FileSystem} {path document : Text} :
    fs.read path = .ok document ↔ fs.Holds path document := by
  constructor
  · intro h
    unfold read at h
    split at h
    · cases h
    · next content hb =>
      split at h
      · next s hs =>
        cases h
        rw [Holds, hb, eq_utf8Encode_of_fromUTF8? hs]
      · cases h
  · intro h
    unfold read
    rw [h]
    simp only [fromUTF8?_utf8Encode, String.toList_ofList]

end FileSystem

namespace FileTree

variable {tree : FileTree} {content : ByteArray}

/-- A name that is looked up in a directory. -/
structure IsEntry (name : Text) : Prop where
  ne_nil : name ≠ []
  ne_self : name ≠ ['.']
  ne_parent : name ≠ ['.', '.']
  short : name.byteLength ≤ maxNameLength

/-- From a directory, the names lead to a file with this content. -/
inductive LeadsTo (tree : FileTree) (content : ByteArray) : List Text → List Text → Prop where
  | file {place name} : IsEntry name → tree.at? (place ++ [name]) = some (.file content) →
      LeadsTo tree content place [name]
  | enter {place name names} : IsEntry name → tree.at? (place ++ [name]) = some .directory →
      LeadsTo tree content (place ++ [name]) names → LeadsTo tree content place (name :: names)
  | stay {place name names} : name = [] ∨ name = ['.'] → LeadsTo tree content place names →
      LeadsTo tree content place (name :: names)
  | leave {place last names} : LeadsTo tree content place names →
      LeadsTo tree content (place ++ [last]) (['.', '.'] :: names)

/-- The path starts in the working directory, is not too long, and leads to a file with this content. -/
structure Names (tree : FileTree) (path : Text) (content : ByteArray) : Prop where
  noNul : '\x00' ∉ path
  short : path.byteLength ≤ maxPathLength
  relative : path.head? ≠ some '/'
  leads : tree.LeadsTo content [] (Path.split path)

theorem follow_stay {name : Text} (hn : name = [] ∨ name = ['.']) (place : List Text) :
    tree.follow (.inside place) name = .ok (.inside place) := if_pos hn

theorem follow_leave (place : List Text) (last : Text) :
    tree.follow (.inside (place ++ [last])) ['.', '.'] = .ok (.inside place) := by
  simp [follow]

theorem follow_leave_root : tree.follow (.inside []) ['.', '.'] = .ok .above := by
  simp [follow]

theorem follow_entry {name : Text} (hn : IsEntry name) (place : List Text) :
    tree.follow (.inside place) name =
      match tree.at? (place ++ [name]) with
      | none => .error .notFound
      | some (.file content) => .ok (.file content)
      | some .directory => .ok (.inside (place ++ [name])) := by
  have hs : ¬(name = [] ∨ name = ['.']) := not_or.mpr ⟨hn.ne_nil, hn.ne_self⟩
  exact (if_neg hs).trans ((if_neg hn.ne_parent).trans (if_neg (Nat.not_lt.mpr hn.short)))

theorem follow_long {name : Text} (hs : ¬(name = [] ∨ name = ['.'])) (hp : name ≠ ['.', '.'])
    (hl : maxNameLength < name.byteLength) (place : List Text) :
    tree.follow (.inside place) name = .error .invalidFilename :=
  (if_neg hs).trans ((if_neg hp).trans (if_pos hl))

/-- Above the working directory no names lead to a file. -/
theorem foldlM_follow_above (names : List Text) :
    names.foldlM tree.follow .above ≠ .ok (.file content) := by
  induction names with
  | nil =>
    intro h
    cases h
  | cons name names ih =>
    intro h
    rw [List.foldlM_cons, follow] at h
    by_cases hs : name = [] ∨ name = ['.'] ∨ name = ['.', '.']
    · rw [if_pos hs] at h
      exact ih h
    · rw [if_neg hs] at h
      by_cases hl : maxNameLength < name.byteLength
      · rw [if_pos hl] at h
        cases h
      · rw [if_neg hl] at h
        cases h

theorem foldlM_follow_of_leadsTo {place names : List Text} (h : tree.LeadsTo content place names) :
    names.foldlM tree.follow (.inside place) = .ok (.file content) := by
  induction h with
  | file hn hf =>
    rw [List.foldlM_cons, follow_entry hn, hf]
    rfl
  | enter hn hd _ ih =>
    rw [List.foldlM_cons, follow_entry hn, hd]
    exact ih
  | stay hn _ ih =>
    rw [List.foldlM_cons, follow_stay hn]
    exact ih
  | leave _ ih =>
    rw [List.foldlM_cons, follow_leave]
    exact ih

theorem leadsTo_of_foldlM_follow {names place : List Text}
    (h : names.foldlM tree.follow (.inside place) = .ok (.file content)) :
    tree.LeadsTo content place names := by
  induction names generalizing place with
  | nil => cases h
  | cons name names ih =>
    rw [List.foldlM_cons] at h
    by_cases hs : name = [] ∨ name = ['.']
    · rw [follow_stay hs] at h
      exact .stay hs (ih h)
    by_cases hp : name = ['.', '.']
    · subst hp
      rcases List.eq_nil_or_concat' place with rfl | ⟨front, last, rfl⟩
      · rw [follow_leave_root] at h
        exact absurd h (foldlM_follow_above names)
      · rw [follow_leave] at h
        exact .leave (ih h)
    by_cases hl : maxNameLength < name.byteLength
    · rw [follow_long hs hp hl] at h
      cases h
    · have hn : IsEntry name :=
        ⟨fun h => hs (.inl h), fun h => hs (.inr h), hp, Nat.not_lt.mp hl⟩
      rw [follow_entry hn] at h
      cases ha : tree.at? (place ++ [name]) with
      | none =>
        rw [ha] at h
        cases h
      | some node =>
        rw [ha] at h
        cases node with
        | directory => exact .enter hn ha (ih h)
        | file found =>
          -- A file ends the walk: any further name would be refused.
          cases names with
          | nil =>
            cases h
            exact .file hn ha
          | cons next names => cases h

theorem locate_eq_file_iff {path : Text} :
    tree.locate path = .ok (.file content) ↔ tree.Names path content := by
  unfold locate
  constructor
  · intro h
    by_cases hz : '\x00' ∈ path
    · rw [if_pos hz] at h
      cases h
    rw [if_neg hz] at h
    by_cases hn : path = []
    · rw [if_pos hn] at h
      cases h
    rw [if_neg hn] at h
    by_cases hl : maxPathLength < path.byteLength
    · rw [if_pos hl] at h
      cases h
    rw [if_neg hl] at h
    by_cases hr : path.head? = some '/'
    · rw [if_pos hr] at h
      exact absurd h (foldlM_follow_above _)
    · rw [if_neg hr] at h
      exact ⟨hz, Nat.not_lt.mp hl, hr, leadsTo_of_foldlM_follow h⟩
  · rintro ⟨hz, hl, hr, h⟩
    have hn : path ≠ [] := by
      rintro rfl
      cases foldlM_follow_of_leadsTo h
    rw [if_neg hz, if_neg hn, if_neg (Nat.not_lt.mpr hl), if_neg hr]
    exact foldlM_follow_of_leadsTo h

/-- What a tree has to read is what paths name in it. -/
theorem bytes_eq_ok_iff {path : Text} :
    tree.fileSystem.bytes path = .ok content ↔ tree.Names path content := by
  rw [← locate_eq_file_iff]
  simp only [fileSystem]
  cases tree.locate path with
  | error e => simp
  | ok location => cases location <;> simp

end FileTree

end SourceGen
