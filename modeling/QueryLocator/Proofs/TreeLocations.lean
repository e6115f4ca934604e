import QueryLocator.FileTree
import QueryLocator.Proofs.Outcomes
import QueryLocator.Proofs.PathNames

/-! # Where paths lead in a tree of files

Nothing in a tree leads across it, so each of its directories and files is told by the names that lead
to it from the root, without any dots among them: its location.  A path, which may go back up on its
way, stands for a location as well (`Path.location`), and that is where it leads, if it leads anywhere
(`FileTree.At.of_locate`).
-/
namespace QueryLocator

/-! ## Locations -/

namespace Path

/-- The location that names lead to from a location.  Two dots lead to the location above. -/
def destination : List String → List String → List String
  | location, [] => location
  | location, name :: names =>
    destination (if name = ".." then location.dropLast else location ++ [name]) names

theorem destination_append (location a b : List String) :
    destination location (a ++ b) = destination (destination location a) b := by
  induction a generalizing location with
  | nil => rfl
  | cons name a ih => exact ih _

/-- Names without two dots among them lead down. -/
theorem destination_of_not_mem {location names : List String} (h : ".." ∉ names) :
    destination location names = location ++ names := by
  induction names generalizing location with
  | nil => exact (List.append_nil _).symm
  | cons name names ih =>
    obtain ⟨hname, hnames⟩ := not_or.mp (mt List.mem_cons.mpr h)
    rw [destination, if_neg (Ne.symm hname), ih hnames, List.append_assoc, List.singleton_append]

/-- The location that the names of a path begin at. -/
def base (workingDirectory : List String) (path : Path) : List String :=
  if path.isAbsolute then [] else destination [] workingDirectory

/-- The location that a path stands for, seen from a working directory. -/
def location (workingDirectory : List String) (path : Path) : List String :=
  destination (path.base workingDirectory) (path.names.map String.ofList)

variable {workingDirectory : List String} {path directory : Path}

/-- A file in a directory is one name below. -/
theorem location_join (directory : Path) {name : String} (hname : IsName name.toList) :
    (directory.join name).location workingDirectory =
      directory.location workingDirectory ++ [name] := by
  have hup : name ≠ ".." := by
    rintro rfl
    exact hname.notUp (by decide)
  rw [location, location, base, directory.isAbsolute_join hname, directory.names_join hname,
    List.map_append, destination_append, List.map_singleton, String.ofList_toList,
    destination_of_not_mem (by simpa using hup.symm), base]

/-- Where a path does not go back up, the paths above it lead to locations above. -/
theorem location_prefix_of_mem_ancestors (h : ['.', '.'] ∉ path.names)
    (hmem : directory ∈ path.ancestors) :
    directory.location workingDirectory <+: path.location workingDirectory := by
  have hup : ".." ∉ path.names.map String.ofList := by
    intro hup
    obtain ⟨name, hname, heq⟩ := List.mem_map.mp hup
    obtain rfl : name = ['.', '.'] := String.ofList_injective heq
    exact h hname
  obtain ⟨rest, hrest⟩ := names_prefix_of_mem_ancestors hmem
  rw [← hrest, List.map_append] at hup
  rw [location, location, base, base, isAbsolute_of_mem_ancestors hmem, ← hrest, List.map_append,
    destination_append, destination_of_not_mem (fun h => hup (List.mem_append_right _ h))]
  exact List.prefix_append ..

end Path

/-! ## Places -/

namespace FileTree

variable {root : FileTree} {location names : List String} {name : String} {place last : Place}

theorem follow_append (place : Place) (a b : List String) :
    follow place (a ++ b) = (follow place a).bind fun middle => follow middle b := by
  induction a generalizing place with
  | nil => rfl
  | cons name a ih =>
    rw [List.cons_append, follow, follow]
    split
    next => rfl
    next =>
      split
      next => split <;> exact ih _
      next =>
        split
        next => rfl
        next =>
          split
          next => rfl
          next => exact ih _

/-- The place above; above the root it is the root. -/
def Place.above (place : Place) : Place :=
  match place.outer with
  | [] => place
  | tree :: outer => ⟨tree, outer⟩

/-- Two dots lead from a directory to the place above. -/
theorem above_of_follow (h : follow place [".."] = .ok last) : last = place.above := by
  rw [follow] at h
  split at h
  next => cases h
  next =>
    rw [if_pos rfl] at h
    split at h
    next houter =>
      rw [Place.above, houter]
      exact (Except.ok.inj h).symm
    next houter =>
      rw [Place.above, houter]
      exact (Except.ok.inj h).symm

/-- Any other name leads to an entry. -/
theorem outer_of_follow (hup : name ≠ "..") (h : follow place [name] = .ok last) :
    last.outer = place.tree :: place.outer := by
  rw [follow] at h
  split at h
  next => cases h
  next =>
    rw [if_neg hup] at h
    split at h
    next => cases h
    next =>
      split at h
      next => cases h
      next =>
        obtain rfl := Except.ok.inj h
        rfl

/-- A place is at a location when the names of the location lead to it from the root, without going
back up. -/
structure At (root : FileTree) (location : List String) (place : Place) : Prop where
  leads : follow ⟨root, []⟩ location = .ok place
  noUp : ".." ∉ location

namespace At

theorem top (root : FileTree) : At root [] ⟨root, []⟩ :=
  ⟨rfl, List.not_mem_nil⟩

/-- Above a place at a location is a place at the location above. -/
theorem above (h : At root location place) : At root location.dropLast place.above := by
  rcases location.eq_nil_or_concat with rfl | ⟨outer, name, rfl⟩
  · obtain rfl := Except.ok.inj h.leads
    exact top root
  · have hleads := h.leads
    rw [List.concat_eq_append, follow_append, bind_eq_ok_iff] at hleads
    obtain ⟨parent, hparent, hlast⟩ := hleads
    have hname : name ≠ ".." := fun heq => h.noUp (by simp [heq])
    have habove : place.above = parent := by rw [Place.above, outer_of_follow hname hlast]
    rw [List.concat_eq_append, List.dropLast_concat, habove]
    exact ⟨hparent, fun hmem => h.noUp (by simp [hmem])⟩

/-- One name leads from a place at a location to a place at the location that it stands for. -/
theorem step (h : At root location place) (hfollow : follow place [name] = .ok last) :
    At root (Path.destination location [name]) last := by
  by_cases hup : name = ".."
  · subst hup
    rw [above_of_follow hfollow]
    exact h.above
  · rw [Path.destination, if_neg hup, Path.destination]
    refine ⟨?_, by simpa using ⟨h.noUp, Ne.symm hup⟩⟩
    rw [follow_append, h.leads]
    exact hfollow

/-- So do any names. -/
theorem run (h : At root location place) (hfollow : follow place names = .ok last) :
    At root (Path.destination location names) last := by
  induction names generalizing location place with
  | nil =>
    obtain rfl := Except.ok.inj hfollow
    exact h
  | cons name names ih =>
    rw [← List.singleton_append, follow_append, bind_eq_ok_iff] at hfollow
    obtain ⟨next, hnext, hrest⟩ := hfollow
    exact ih (h.step hnext) hrest

end At

/-- A path that leads somewhere leads there by its names, from the root or from the working
directory. -/
theorem follow_of_locate {workingDirectory : List String} {path : Path}
    (h : locate root workingDirectory path = .ok place) :
    ∃ start, (if path.isAbsolute then .ok ⟨root, []⟩ else follow ⟨root, []⟩ workingDirectory) =
        .ok start ∧
      follow start (path.names.map String.ofList) = .ok place := by
  unfold locate at h
  by_cases hnull : path.text.toList.contains '\x00' = true
  · rw [if_pos hnull] at h
    cases h
  by_cases hempty : path.text.isEmpty = true
  · rw [if_neg hnull, if_pos hempty] at h
    cases h
  by_cases hlong : pathLimit ≤ path.text.utf8ByteSize
  · rw [if_neg hnull, if_neg hempty, if_pos hlong] at h
    cases h
  rw [if_neg hnull, if_neg hempty, if_neg hlong] at h
  by_cases habsolute : path.isAbsolute = true
  case' pos => rw [if_pos habsolute] at h ⊢
  case' neg => rw [if_neg habsolute] at h ⊢
  all_goals
    obtain ⟨start, hstart, hrun⟩ := bind_eq_ok_iff.mp h
    obtain ⟨found, hfound, hkept⟩ := bind_eq_ok_iff.mp hrun
    refine ⟨start, hstart, hfound.trans ?_⟩
    -- a file may be refused here, but nothing is put in its stead
    split at hkept
    next => exact hkept
    next =>
      split at hkept
      next => cases hkept
      next => exact hkept

/-- **A path leads to the location that it stands for**, if it leads anywhere. -/
theorem At.of_locate {workingDirectory : List String} {path : Path}
    (h : locate root workingDirectory path = .ok place) :
    At root (path.location workingDirectory) place := by
  obtain ⟨start, hstart, hplace⟩ := follow_of_locate h
  refine At.run ?_ hplace
  rw [Path.base]
  split at hstart
  next habsolute =>
    obtain rfl := Except.ok.inj hstart
    rw [if_pos habsolute]
    exact At.top root
  next habsolute =>
    rw [if_neg habsolute]
    exact (At.top root).run hstart

end FileTree
end QueryLocator
