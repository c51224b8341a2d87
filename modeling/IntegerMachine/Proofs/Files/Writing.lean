import IntegerMachine.Files.Tree
import IntegerMachine.Proofs.Reply

/-!
# Files that are written

A file is written where no folder stands, in a folder that is made if it is missing.  Making folders
and putting a file beside them leaves every folder in its place (`follow_mono`), so the way to the
file that was followed to write it leads to it afterwards: `read_of_write`.
-/

set_option autoImplicit false

namespace IntegerMachine.Files

/-- Whether a location can be looked up at all. -/
def Location.IsNamable (location : Location) : Prop :=
  location.text.toList.contains '\x00' = false ∧
    location.text.utf8ByteSize ≤ Tree.maxLocationSize

namespace Tree

variable {tree after : Tree}

/-! ## Following names -/

/-- At a location that can be looked up stands what its names lead to. -/
theorem look_of_isNamable {location : Location} (h : location.IsNamable) (tree : Tree) :
    tree.look location = tree.follow location.start location.names := by
  rw [look, h.1, if_neg (by decide), if_pos h.2]

/-- A location where something or nothing stands can be looked up. -/
theorem isNamable_of_look {location : Location} {kind : Kind} (h : tree.look location = kind)
    (hunnamable : kind ≠ .unnamable) (hoverlong : kind ≠ .overlong) : location.IsNamable := by
  unfold look at h
  split at h
  · exact absurd h.symm hunnamable
  · rename_i hnull
    split at h
    · rename_i hsize
      exact ⟨Bool.eq_false_iff.mpr hnull, hsize⟩
    · exact absurd h.symm hoverlong

/-- What stands at a location that can be looked up is what its names lead to. -/
theorem follow_of_look {location : Location} {kind : Kind} (h : tree.look location = kind)
    (hunnamable : kind ≠ .unnamable) (hoverlong : kind ≠ .overlong) :
    tree.follow location.start location.names = kind := by
  rw [← look_of_isNamable (isNamable_of_look h hunnamable hoverlong), h]

/-- Names lead to a folder along folders. -/
theorem follow_cons_eq_folder {place : Location} {name : String} {rest : List String} :
    tree.follow place (name :: rest) = .folder ↔
      tree.kindAt place = .folder ∧ name.utf8ByteSize ≤ maxNameSize ∧
        tree.follow (place.child name) rest = .folder := by
  rw [follow]
  cases tree.kindAt place with
  | folder =>
    by_cases hsize : name.utf8ByteSize ≤ maxNameSize
    · simp [hsize]
    · simp [hsize]
  | file _ | vacant | blocked | overlong | unnamable => simp

/-- One name more behind names that lead to a folder. -/
theorem follow_concat_eq_iff {place : Location} {names : List String} (name : String) {kind : Kind}
    (h : tree.follow place names = .folder) (hkind : kind ≠ .overlong) :
    tree.follow place (names ++ [name]) = kind ↔
      name.utf8ByteSize ≤ maxNameSize ∧
        tree.kindAt ((names ++ [name]).foldl Location.child place) = kind := by
  induction names generalizing place with
  | nil =>
    have hplace : tree.kindAt place = .folder := h
    rw [List.nil_append, follow, hplace]
    by_cases hsize : name.utf8ByteSize ≤ maxNameSize
    · simp [hsize, follow]
    · simp [hsize, hkind.symm]
  | cons first rest ih =>
    obtain ⟨hplace, hsize, hrest⟩ := follow_cons_eq_folder.mp h
    rw [List.cons_append, follow, hplace, List.foldl_cons]
    simp only [if_pos hsize]
    exact ih hrest

/-- Where every folder stays one, names lead to the folders they led to. -/
theorem follow_mono {later : Tree}
    (hkeep : ∀ place, tree.kindAt place = .folder → later.kindAt place = .folder)
    {place : Location} {names : List String} (h : tree.follow place names = .folder) :
    later.follow place names = .folder := by
  induction names generalizing place with
  | nil => exact hkeep place h
  | cons name rest ih =>
    obtain ⟨hplace, hsize, hrest⟩ := follow_cons_eq_folder.mp h
    exact follow_cons_eq_folder.mpr ⟨hkeep place hplace, hsize, ih hrest⟩

/-! ## Folders that stay -/

/-- A place is a folder if it is no file and lies above the tree, or is listed, or is on the way to
a file. -/
theorem kindAt_eq_folder_iff {place : Location} :
    tree.kindAt place = .folder ↔ tree.files.lookup place = none ∧
      (place.names.all (· == "..") = true ∨ place ∈ tree.folders ∨
        ∃ file ∈ tree.files, place.isOnWay file.1 = true) := by
  unfold kindAt
  cases tree.files.lookup place with
  | some text => simp
  | none =>
    rw [← List.any_eq_true, ← List.contains_iff_mem, ← Bool.or_eq_true, ← Bool.or_eq_true,
      ← Bool.or_assoc]
    simp only [true_and]
    split
    · rename_i hfolder
      exact ⟨fun _ => hfolder, fun _ => rfl⟩
    · rename_i hfolder
      exact ⟨fun h => absurd h (by simp), fun h => absurd h hfolder⟩

/-- Listing a folder keeps the folders there are. -/
theorem kindAt_addFolder {place location : Location} (h : tree.kindAt place = .folder) :
    (tree.addFolder location).kindAt place = .folder := by
  obtain ⟨hfile, hfolder⟩ := kindAt_eq_folder_iff.mp h
  refine kindAt_eq_folder_iff.mpr ⟨hfile, ?_⟩
  rcases hfolder with habove | hlisted | hway
  · exact .inl habove
  · exact .inr (.inl (List.mem_cons_of_mem _ hlisted))
  · exact .inr (.inr hway)

/-- Listing a vacant place makes it a folder. -/
theorem kindAt_plain_addFolder {location : Location} (h : tree.kindAt location.plain = .vacant) :
    (tree.addFolder location).kindAt location.plain = .folder := by
  refine kindAt_eq_folder_iff.mpr ⟨?_, .inr (.inl List.mem_cons_self)⟩
  unfold kindAt at h
  cases hlookup : tree.files.lookup location.plain with
  | some text => simp [hlookup] at h
  | none => exact hlookup

/-- Removing the file at one place keeps the files at the others. -/
theorem lookup_filter_ne {place other : Location} (h : other ≠ place)
    (files : List (Location × String)) :
    (files.filter fun file => file.1 != place).lookup other = files.lookup other := by
  induction files with
  | nil => rfl
  | cons file rest ih =>
    obtain ⟨position, text⟩ := file
    by_cases hplace : position = place
    · subst hplace
      rw [List.filter_cons_of_neg (by simp), ih, List.lookup_cons, beq_false_of_ne h]
    · rw [List.filter_cons_of_pos (by simpa using hplace), List.lookup_cons, List.lookup_cons, ih]

/-- A file that is put where no folder stands takes no folder's place. -/
theorem kindAt_put {place other : Location} {text : String}
    (hplace : tree.kindAt place ≠ .folder) (h : tree.kindAt other = .folder) :
    (tree.put place text).kindAt other = .folder := by
  have hne : other ≠ place := by
    rintro rfl
    exact hplace h
  obtain ⟨hfile, hfolder⟩ := kindAt_eq_folder_iff.mp h
  refine kindAt_eq_folder_iff.mpr ⟨?_, ?_⟩
  · rw [put, List.lookup_cons, beq_false_of_ne hne]
    exact (lookup_filter_ne hne tree.files).trans hfile
  · rcases hfolder with habove | hlisted | ⟨file, hmem, hway⟩
    · exact .inl habove
    · exact .inr (.inl hlisted)
    · -- the file may be the one replaced, whose place is the same
      refine .inr (.inr ?_)
      by_cases hsame : file.1 = place
      · exact ⟨(place, text), List.mem_cons_self, hsame ▸ hway⟩
      · refine ⟨file, List.mem_cons_of_mem _ (List.mem_filter.mpr ⟨hmem, ?_⟩), hway⟩
        simpa using hsame

/-- A file stands where it was put. -/
theorem kindAt_put_self (place : Location) (text : String) :
    (tree.put place text).kindAt place = .file text := by
  simp [kindAt, put]

/-! ## Making folders -/

/-- Names that are made behind a folder lead to a folder. -/
theorem follow_of_makeFolders {folder : Location} {names : List String}
    (hfolder : tree.follow folder.start folder.names = .folder)
    (h : tree.makeFolders folder names = .ok after) :
    after.follow folder.start (folder.names ++ names) = .folder := by
  induction names generalizing tree folder with
  | nil =>
    obtain rfl := Except.ok.inj h
    rwa [List.append_nil]
  | cons name rest ih =>
    have hsplit : folder.names ++ name :: rest = (folder.names ++ [name]) ++ rest := by simp
    rw [makeFolders] at h
    rw [hsplit]
    cases hlook : tree.look { folder with names := folder.names ++ [name] } with
    | folder =>
      rw [hlook] at h
      exact ih (follow_of_look hlook (by simp) (by simp)) h
    | vacant =>
      rw [hlook] at h
      have hvacant := follow_of_look hlook (by simp) (by simp)
      obtain ⟨hsize, hplace⟩ := (follow_concat_eq_iff name hfolder (by simp)).mp hvacant
      have hstill : (tree.addFolder { folder with names := folder.names ++ [name] }).follow
          folder.start folder.names = .folder :=
        follow_mono (fun _ => kindAt_addFolder) hfolder
      exact ih ((follow_concat_eq_iff name hstill (by simp)).mpr
        ⟨hsize, kindAt_plain_addFolder hplace⟩) h
    | file _ | blocked | overlong | unnamable =>
      rw [hlook] at h
      exact absurd h (by simp)

/-- Names that lead nowhere begin at a folder. -/
theorem kindAt_of_follow_eq_vacant {location : Location}
    (h : tree.follow location.start location.names = .vacant) :
    tree.kindAt location.start = .folder := by
  have hstart : tree.kindAt location.start ≠ .vacant := by
    unfold kindAt
    cases tree.files.lookup location.start with
    | some text => simp
    | none => simp [Location.start]
  cases hnames : location.names with
  | nil =>
    rw [hnames] at h
    exact absurd h hstart
  | cons name rest =>
    rw [hnames, follow] at h
    cases hkind : tree.kindAt location.start with
    | folder => rfl
    | vacant => exact absurd hkind hstart
    | file _ | blocked | overlong | unnamable => simp [hkind] at h

/-- A folder stands where one was created, whatever stood on the way. -/
theorem follow_of_makeFolder {location : Location} (h : tree.makeFolder location = .ok after) :
    after.follow location.start location.names = .folder := by
  rw [makeFolder] at h
  cases hlook : tree.look location with
  | folder =>
    rw [hlook] at h
    obtain rfl := Except.ok.inj h
    exact follow_of_look hlook (by simp) (by simp)
  | vacant =>
    rw [hlook] at h
    have hstart : tree.follow location.start location.start.names = .folder :=
      kindAt_of_follow_eq_vacant (follow_of_look hlook (by simp) (by simp))
    exact follow_of_makeFolders hstart h
  | file _ | blocked | overlong | unnamable =>
    rw [hlook] at h
    exact absurd h (by simp)

/-! ## Writing -/

/-- A file is put where its folder is there and no folder stands. -/
theorem write_eq_ok {location : Location} {text : String}
    (h : tree.write location text = .ok after) :
    ∃ made, tree.makeFolder location.parent = .ok made ∧ made.look location ≠ .folder ∧
      made.look location ≠ .unnamable ∧ made.look location ≠ .overlong ∧
      after = made.put location.plain text := by
  obtain ⟨made, hmade, hput⟩ := bind_eq_ok.mp h
  refine ⟨made, hmade, ?_⟩
  cases hlook : made.look location with
  | vacant | file _ =>
    simp only [hlook] at hput
    exact ⟨by simp, by simp, by simp, (Except.ok.inj hput).symm⟩
  | folder | blocked | overlong | unnamable =>
    simp only [hlook] at hput
    exact absurd hput (by simp [throw, throwThe, MonadExceptOf.throw])

/-- What is written at a location is read there. -/
theorem read_of_write {location : Location} {text : String}
    (h : tree.write location text = .ok after) : after.read location = .ok text := by
  obtain ⟨made, hmade, hnotFolder, hunnamable, hoverlong, rfl⟩ := write_eq_ok h
  have hfolder := follow_of_makeFolder hmade
  have hfollow := follow_of_look rfl hunnamable hoverlong
  have hnames : location.names ≠ [] := by
    intro hnil
    -- the location of no names is its own parent
    have hparent : location.parent.names = location.names := by simp [Location.parent, hnil]
    rw [hparent] at hfolder
    exact hnotFolder (hfollow.symm.trans hfolder)
  have hsplit : location.parent.names ++ [location.names.getLast hnames] = location.names :=
    List.dropLast_concat_getLast hnames
  rw [← hsplit] at hfollow
  obtain ⟨hsize, hplace⟩ := (follow_concat_eq_iff _ hfolder hoverlong).mp hfollow
  rw [hsplit] at hplace
  have hstill : (made.put location.plain text).follow location.parent.start location.parent.names =
      .folder :=
    follow_mono (fun _ => kindAt_put (hplace ▸ hnotFolder)) hfolder
  have hthere : (made.put location.plain text).look location = .file text := by
    rw [look_of_isNamable (isNamable_of_look rfl hunnamable hoverlong), ← hsplit]
    refine (follow_concat_eq_iff _ hstill (by simp)).mpr ⟨hsize, ?_⟩
    rw [hsplit]
    exact kindAt_put_self location.plain text
  rw [read, hthere]

end Tree

end IntegerMachine.Files
