import Mathlib.Data.List.Infix
import QueryLocator.Path

/-! # The names of a path

What stands in front of the pieces of a path is no name, so the names are those among the pieces of
the whole text (`Path.names_eq`).  Joining a file name to the path of a directory adds one name
(`Path.names_join`), and the paths above a path have one name less each, down to none
(`Path.names_ancestors`).  Neither turns a relative path into an absolute one or the other way round.
-/
namespace QueryLocator.Path

/-! ## Pieces -/

/-- A text that stands for a file or a directory wherever it comes last in a path. -/
structure IsName (name : List Char) : Prop where
  noSlash : '/' ∉ name
  notIdle : isIdle name = false
  notUp : name ≠ ['.', '.']

instance (name : List Char) : Decidable (IsName name) :=
  decidable_of_iff ('/' ∉ name ∧ isIdle name = false ∧ name ≠ ['.', '.'])
    ⟨fun ⟨noSlash, notIdle, notUp⟩ => ⟨noSlash, notIdle, notUp⟩,
      fun ⟨noSlash, notIdle, notUp⟩ => ⟨noSlash, notIdle, notUp⟩⟩

theorem splitSlashes_of_not_mem {text : List Char} (h : '/' ∉ text) : splitSlashes text = [text] := by
  induction text with
  | nil => rfl
  | cons c rest ih =>
    obtain ⟨hc, hrest⟩ := not_or.mp (mt List.mem_cons.mpr h)
    rw [splitSlashes, if_neg (Ne.symm hc), ih hrest]

/-- A slash parts the pieces in front of it from those behind it. -/
theorem splitSlashes_append_slash (front back : List Char) :
    splitSlashes (front ++ '/' :: back) = splitSlashes front ++ splitSlashes back := by
  induction front with
  | nil => rfl
  | cons c front ih =>
    rw [List.cons_append, splitSlashes, splitSlashes, ih]
    split
    next => rfl
    next =>
      obtain ⟨piece, pieces, hpieces⟩ := List.exists_cons_of_ne_nil (splitSlashes_ne_nil front)
      rw [hpieces]
      rfl

theorem not_mem_of_mem_splitSlashes {text piece : List Char} (h : piece ∈ splitSlashes text) :
    '/' ∉ piece := by
  induction text generalizing piece with
  | nil =>
    obtain rfl := List.mem_singleton.mp h
    exact List.not_mem_nil
  | cons c rest ih =>
    obtain ⟨first, others, hrest⟩ := List.exists_cons_of_ne_nil (splitSlashes_ne_nil rest)
    rw [hrest] at ih
    rw [splitSlashes, hrest] at h
    split at h
    next =>
      rcases List.mem_cons.mp h with rfl | hmem
      · exact List.not_mem_nil
      · exact ih hmem
    next hc =>
      rcases List.mem_cons.mp h with rfl | hmem
      · rw [List.mem_cons, not_or]
        exact ⟨Ne.symm hc, ih (List.mem_cons_self ..)⟩
      · exact ih (List.mem_cons_of_mem _ hmem)

/-- Pieces are found again in what they are put together to. -/
theorem splitSlashes_joinSlashes {pieces : List (List Char)} (hne : pieces ≠ [])
    (hslash : ∀ piece ∈ pieces, '/' ∉ piece) : splitSlashes (joinSlashes pieces) = pieces := by
  induction pieces with
  | nil => exact absurd rfl hne
  | cons piece pieces ih =>
    obtain ⟨hpiece, hpieces⟩ := List.forall_mem_cons.mp hslash
    cases pieces with
    | nil => exact splitSlashes_of_not_mem hpiece
    | cons next pieces =>
      rw [joinSlashes_cons_cons, splitSlashes_append_slash, splitSlashes_of_not_mem hpiece,
        ih (List.cons_ne_nil _ _) hpieces, List.singleton_append]

theorem joinSlashes_prefix {a b : List (List Char)} (h : a <+: b) :
    joinSlashes a <+: joinSlashes b := by
  obtain ⟨rest, rfl⟩ := h
  induction a with
  | nil => exact List.nil_prefix
  | cons piece a ih =>
    cases a with
    | nil =>
      cases rest with
      | nil => exact List.prefix_refl _
      | cons next rest => exact List.prefix_append ..
    | cons next a =>
      rw [List.cons_append, List.cons_append, joinSlashes_cons_cons, joinSlashes_cons_cons,
        List.prefix_append_right_inj, List.cons_prefix_cons]
      exact ⟨rfl, ih⟩

/-! ## Names -/

/-- The pieces that count. -/
def namesIn (pieces : List (List Char)) : List (List Char) :=
  pieces.filter fun piece => !isIdle piece

theorem namesIn_cons_of_idle {piece : List Char} (h : isIdle piece = true)
    (pieces : List (List Char)) : namesIn (piece :: pieces) = namesIn pieces :=
  List.filter_cons_of_neg (by simp [h])

theorem namesIn_cons {piece : List Char} (h : isIdle piece = false) (pieces : List (List Char)) :
    namesIn (piece :: pieces) = piece :: namesIn pieces :=
  List.filter_cons_of_pos (by simp [h])

theorem namesIn_append (a b : List (List Char)) : namesIn (a ++ b) = namesIn a ++ namesIn b :=
  List.filter_append ..

theorem namesIn_reverse (pieces : List (List Char)) :
    namesIn pieces.reverse = (namesIn pieces).reverse :=
  List.filter_reverse ..

theorem namesIn_dropWhile (pieces : List (List Char)) :
    namesIn (pieces.dropWhile isIdle) = namesIn pieces := by
  induction pieces with
  | nil => rfl
  | cons piece pieces ih =>
    cases h : isIdle piece with
    | true => rw [List.dropWhile_cons_of_pos h, ih, namesIn_cons_of_idle h]
    | false => rw [List.dropWhile_cons_of_neg (by simp [h])]

theorem namesIn_splitSlashes_joinSlashes {pieces : List (List Char)}
    (hslash : ∀ piece ∈ pieces, '/' ∉ piece) :
    namesIn (splitSlashes (joinSlashes pieces)) = namesIn pieces := by
  cases pieces with
  | nil => rfl
  | cons piece pieces => rw [splitSlashes_joinSlashes (List.cons_ne_nil _ _) hslash]

/-- What stands in front of the pieces is no name. -/
theorem names_eq (path : Path) : path.names = namesIn (splitSlashes path.text.toList) := by
  unfold names pieces lead namesIn
  split
  next htext => rw [htext]; rfl
  next htext => rw [htext]; rfl
  next htext => rw [htext]; rfl
  next => rfl

/-! ## Files in a directory -/

/-- The path of a file in a directory is that of the directory, if it has one, and the name, with a
slash between them. -/
theorem join_text (directory : Path) (name : String) :
    directory.text.toList = [] ∧ (directory.join name).text.toList = name.toList ∨
      ∃ front, (front ≠ [] ∧ directory.text.toList = front ∨
          directory.text.toList = front ++ ['/']) ∧
        (directory.join name).text.toList = front ++ '/' :: name.toList := by
  unfold join
  split
  next hempty => exact Or.inl ⟨by simpa using hempty, rfl⟩
  next hne =>
    split
    next hslash =>
      obtain ⟨front, hfront⟩ := List.getLast?_eq_some_iff.mp hslash
      exact Or.inr ⟨front, Or.inr hfront, by simp [hfront]⟩
    next => exact Or.inr ⟨_, Or.inl ⟨by simpa using hne, rfl⟩, by simp⟩

/-- A file in a directory has one name more. -/
theorem names_join (directory : Path) {name : String} (hname : IsName name.toList) :
    (directory.join name).names = directory.names ++ [name.toList] := by
  have hlast : namesIn (splitSlashes name.toList) = [name.toList] := by
    rw [splitSlashes_of_not_mem hname.noSlash, namesIn_cons hname.notIdle]
    rfl
  rw [names_eq, names_eq]
  rcases directory.join_text name with ⟨hempty, htext⟩ | ⟨front, ⟨-, hfront⟩ | hfront, htext⟩
  · rw [htext, hempty, hlast]
    rfl
  · rw [htext, hfront, splitSlashes_append_slash, namesIn_append, hlast]
  · rw [htext, hfront, splitSlashes_append_slash, splitSlashes_append_slash, namesIn_append,
      namesIn_append, hlast]
    exact congrArg (· ++ _) (List.append_nil _).symm

/-- **A file in a directory has the name it was given**, however the path of the directory is
written. -/
theorem fileName?_join (directory : Path) {name : String} (hname : IsName name.toList) :
    (directory.join name).fileName? = some name.toList := by
  rw [fileName?, directory.names_join hname, List.getLast?_concat]
  exact if_neg hname.notUp

theorem isAbsolute_join (directory : Path) {name : String} (hname : IsName name.toList) :
    (directory.join name).isAbsolute = directory.isAbsolute := by
  unfold isAbsolute
  rcases directory.join_text name with ⟨hempty, htext⟩ | ⟨front, ⟨hne, hfront⟩ | hfront, htext⟩
  · have hhead : name.toList.head? ≠ some '/' := fun hhead =>
      hname.noSlash (List.mem_of_mem_head? hhead)
    rw [htext, hempty]
    simpa using hhead
  · rw [htext, hfront, List.head?_append_of_ne_nil _ hne]
  · rw [htext, hfront]
    cases front <;> rfl

/-! ## The paths above a path -/

/-- What can stand in front of pieces without being taken for a part of them, or they for a part of
it. -/
structure Leads (lead : List Char) (pieces : List (List Char)) : Prop where
  cases : lead = [] ∨ lead = ['/'] ∨ lead = ['.']
  noSlash : ∀ piece ∈ pieces, '/' ∉ piece
  relative : lead = [] → (joinSlashes pieces).head? ≠ some '/'
  dot : lead = ['.'] → ∀ piece ∈ pieces.head?, piece = []

theorem leads_pieces (path : Path) : Leads path.lead path.pieces where
  cases := by
    unfold lead
    split <;> simp
  noSlash _ hmem := not_mem_of_mem_splitSlashes hmem
  relative hlead := by
    rw [pieces, hlead, joinSlashes_splitSlashes]
    intro hhead
    obtain ⟨rest, htext⟩ := List.head?_eq_some_iff.mp hhead
    rw [List.length_nil, List.drop_zero] at htext
    rw [lead, htext] at hlead
    cases hlead
  dot hlead := by
    rw [pieces, hlead]
    unfold lead at hlead
    split at hlead
    next => simp at hlead
    next htext => simp [htext, splitSlashes]
    next htext => simp [htext, splitSlashes]
    next => simp at hlead

theorem leads_reverse (path : Path) : Leads path.lead path.pieces.reverse.reverse := by
  rw [List.reverse_reverse]
  exact path.leads_pieces

namespace Leads
variable {lead : List Char} {pieces leading : List (List Char)}

/-- Pieces may be left out at the end. -/
theorem of_prefix (h : Leads lead pieces) (hleading : leading <+: pieces) : Leads lead leading where
  cases := h.cases
  noSlash piece hmem := h.noSlash piece (hleading.subset hmem)
  relative hlead hhead := by
    obtain ⟨rest, hrest⟩ := joinSlashes_prefix hleading
    apply h.relative hlead
    rw [← hrest, List.head?_append, hhead, Option.some_or]
  dot hlead := by
    obtain ⟨rest, rfl⟩ := hleading
    cases leading with
    | nil => simp
    | cons first leading => exact h.dot hlead

theorem names_eq (h : Leads lead pieces) :
    names ⟨String.ofList (lead ++ joinSlashes pieces)⟩ = namesIn pieces := by
  have hpieces := namesIn_splitSlashes_joinSlashes h.noSlash
  rw [Path.names_eq, String.toList_ofList]
  rcases h.cases with rfl | rfl | rfl
  · exact hpieces
  · exact hpieces
  · -- the dot is a piece of its own
    cases pieces with
    | nil => rfl
    | cons first rest =>
      obtain rfl := h.dot rfl first rfl
      cases rest with
      | nil => rfl
      | cons next rest => exact hpieces

theorem isAbsolute_eq (h : Leads lead pieces) :
    isAbsolute ⟨String.ofList (lead ++ joinSlashes pieces)⟩ = decide (lead = ['/']) := by
  rw [isAbsolute, String.toList_ofList]
  rcases h.cases with rfl | rfl | rfl
  · simpa using h.relative rfl
  · rfl
  · rfl

end Leads

/-- The paths above have one name less each, down to none. -/
theorem names_above {lead : List Char} {reversed : List (List Char)}
    (h : Leads lead reversed.reverse) :
    (above lead reversed).map names =
      (namesIn reversed).tails.tail.map List.reverse ++ if lead = ['.'] then [[]] else [] := by
  induction reversed with
  | nil =>
    rw [above]
    split <;> rfl
  | cons piece outer ih =>
    have houter := h.of_prefix (List.reverse_prefix.mpr (List.suffix_cons piece outer))
    rw [above]
    cases hidle : isIdle piece with
    | true => rw [if_pos rfl, ih houter, namesIn_cons_of_idle hidle]
    | false =>
      have hkept := houter.of_prefix (List.reverse_prefix.mpr (List.dropWhile_suffix isIdle))
      rw [if_neg Bool.false_ne_true, List.map_cons, ih houter, hkept.names_eq, namesIn_reverse,
        namesIn_dropWhile, namesIn_cons hidle, List.tails_cons, List.tail_cons]
      cases namesIn outer <;> rfl

/-- **A path and the paths above it have the leading parts of its names**, the longest one first.  The
directory that a relative path begins in may come twice, as a single dot and as nothing. -/
theorem names_ancestors (path : Path) :
    path.ancestors.map names =
      path.names.inits.reverse ++ if path.lead = ['.'] then [[]] else [] := by
  rw [ancestors, List.map_cons, names_above path.leads_reverse, ← List.cons_append]
  congr 1
  have hnames : path.names = (namesIn path.pieces.reverse).reverse := by
    rw [namesIn_reverse, List.reverse_reverse]
    rfl
  rw [hnames, List.inits_reverse, List.reverse_reverse]
  cases namesIn path.pieces.reverse <;> rfl

/-- The names of a path above begin the names of the path. -/
theorem names_prefix_of_mem_ancestors {path directory : Path} (h : directory ∈ path.ancestors) :
    directory.names <+: path.names := by
  have hmem := List.mem_map_of_mem (f := names) h
  rw [names_ancestors, List.mem_append, List.mem_reverse, List.mem_inits] at hmem
  rcases hmem with hprefix | hnone
  · exact hprefix
  · split at hnone <;> simp_all

theorem isAbsolute_above {lead : List Char} {reversed : List (List Char)}
    (h : Leads lead reversed.reverse) {directory : Path} (hmem : directory ∈ above lead reversed) :
    directory.isAbsolute = decide (lead = ['/']) := by
  induction reversed with
  | nil =>
    rw [above] at hmem
    split at hmem <;> simp_all [isAbsolute]
  | cons piece outer ih =>
    have houter := h.of_prefix (List.reverse_prefix.mpr (List.suffix_cons piece outer))
    rw [above] at hmem
    split at hmem
    next => exact ih houter hmem
    next =>
      rcases List.mem_cons.mp hmem with rfl | hmem
      · exact (houter.of_prefix (List.reverse_prefix.mpr (List.dropWhile_suffix isIdle))).isAbsolute_eq
      · exact ih houter hmem

theorem isAbsolute_eq (path : Path) : path.isAbsolute = decide (path.lead = ['/']) := by
  unfold isAbsolute lead
  split
  next htext => rw [htext]; rfl
  next htext => rw [htext]; rfl
  next htext => rw [htext]; rfl
  next hslash _ _ =>
    cases htext : path.text.toList with
    | nil => rfl
    | cons c rest =>
      have hc : c ≠ '/' := fun heq => hslash rest (heq ▸ htext)
      simpa using hc

/-- The paths above an absolute path are absolute, and those above a relative path are not. -/
theorem isAbsolute_of_mem_ancestors {path directory : Path} (h : directory ∈ path.ancestors) :
    directory.isAbsolute = path.isAbsolute := by
  rcases List.mem_cons.mp h with rfl | habove
  · rfl
  · rw [isAbsolute_above path.leads_reverse habove, isAbsolute_eq]

end QueryLocator.Path
