import Mathlib.Data.List.Induction
import Pinout.Library.Basic
import Pinout.Proofs.File.Spelling
import Pinout.Proofs.Grouping

/-! The search for a table. A library looks at the places that were registered for a
microcontroller in any spelling, then at the usual ones, each path once in its first spelling. The
first file among these decides. It is the first file of all places, unless an earlier spelling of
that file has a slash at its end: it leads to no file, and stands for the one that does. -/

set_option autoImplicit false

namespace Pinout.Library

variable {library later : Library} {tree : File.Tree} {name mcu other : String}
  {paths order places tried : List File.Path} {path : File.Path}
  {registrations : List (String × List File.Path)}

/-! ## Registered places -/

/-- The library with more places, registered one after another. -/
def registerEach (library : Library) :
    List (String × List File.Path) → Except Fault Library
  | [] => .ok library
  | (name, paths) :: rest =>
    match library.register name paths with
    | .error fault => .error fault
    | .ok later => later.registerEach rest

/-- The paths that are registered for a microcontroller, under all spellings of its name. -/
def registeredPaths (registrations : List (String × List File.Path)) (mcu : String) :
    List File.Path :=
  (registrations.filter fun entry => Mcu.normalize? entry.1 = some mcu).flatMap Prod.snd

/-- All places of a microcontroller in the order of the search, with repetitions. -/
def allPlaces (root : File.Path) (registrations : List (String × List File.Path)) (mcu : String) :
    List File.Path :=
  (registeredPaths registrations mcu).map root.join ++
    ((Mcu.builtinDirectories mcu).map fun directory =>
      (root.join ⟨directory⟩).join tableFile) ++
    [(root.join ⟨mcu⟩).join tableFile]

theorem register_of_normalize? (library : Library) (paths : List File.Path)
    (named : Mcu.normalize? name = some mcu) :
    ∃ later, library.register name paths = .ok later ∧ later.root = library.root ∧
      ∀ other, later.placesOf other =
        library.placesOf other ++ if mcu = other then paths else [] := by
  refine ⟨{ library with places := Named.put mcu (library.placesOf mcu ++ paths) library.places },
    by rw [register, named], rfl, ?_⟩
  intro other
  rw [placesOf, placesOf, Named.get?_put]
  split
  · rename_i same
    rw [same, placesOf]
    rfl
  · rw [List.append_nil, placesOf]

/-- A run of registrations adds the paths of every microcontroller in their order. -/
theorem registerEach_of_normalize? (library : Library)
    (accepted : ∀ entry ∈ registrations, ∃ mcu, Mcu.normalize? entry.1 = some mcu) :
    ∃ later, library.registerEach registrations = .ok later ∧ later.root = library.root ∧
      ∀ mcu, later.placesOf mcu = library.placesOf mcu ++ registeredPaths registrations mcu := by
  induction registrations generalizing library with
  | nil => exact ⟨library, rfl, rfl, fun mcu => (List.append_nil _).symm⟩
  | cons entry rest ih =>
      obtain ⟨⟨mcu, named⟩, accepted⟩ := List.forall_mem_cons.mp accepted
      obtain ⟨next, registered, rooted, added⟩ :=
        register_of_normalize? library entry.2 named
      obtain ⟨later, run, rooted', places⟩ := ih next accepted
      refine ⟨later, by rw [registerEach, registered]; exact run, rooted'.trans rooted, ?_⟩
      intro other
      rw [places, added, List.append_assoc, registeredPaths, registeredPaths, List.filter_cons,
        named]
      by_cases same : mcu = other <;> simp [same]

/-! ## Each path once -/

/-- The paths of a list, each once, where it stands first and in the spelling it has there. -/
structure EachOnce (order paths : List File.Path) : Prop where
  sublist : paths.Sublist order
  distinct : paths.Pairwise fun earlier later => earlier.same later = false
  placed : ∀ {before path after}, order = before ++ path :: after →
    (∀ earlier ∈ before, earlier.same path = false) →
    ∃ front back, paths = front ++ path :: back ∧ front.Sublist before ∧ back.Sublist after

theorem same_comm (left right : File.Path) : left.same right = right.same left :=
  Bool.beq_comm

/-- A path that is there already in some spelling changes nothing. -/
theorem EachOnce.concat_of_known {kept : File.Path} (once : EachOnce order paths)
    (known : kept ∈ paths) (same : kept.same path = true) : EachOnce (order ++ [path]) paths where
  sublist := once.sublist.trans (List.sublist_append_left order [path])
  distinct := once.distinct
  placed := by
    intro before first after split unlike
    rcases Grouping.concat_eq_append_cons_iff.mp split with ⟨rfl, rfl, rfl⟩ | ⟨rest, rfl, inside⟩
    · have differs := unlike kept (once.sublist.subset known)
      exact absurd (same.symm.trans differs) (by decide)
    · obtain ⟨front, back, whole, early, late⟩ := once.placed inside unlike
      exact ⟨front, back, whole, early, late.trans (List.sublist_append_left rest [path])⟩

/-- A new path comes behind the others. -/
theorem EachOnce.concat_of_new (once : EachOnce order paths)
    (new : ∀ kept ∈ paths, kept.same path = false) :
    EachOnce (order ++ [path]) (paths ++ [path]) where
  sublist := once.sublist.append (List.Sublist.refl [path])
  distinct := by
    refine List.pairwise_append.mpr ⟨once.distinct, List.pairwise_singleton _ _, ?_⟩
    intro kept member last ending
    rw [List.mem_singleton.mp ending]
    exact new kept member
  placed := by
    intro before first after split unlike
    rcases Grouping.concat_eq_append_cons_iff.mp split with ⟨rfl, rfl, rfl⟩ | ⟨rest, rfl, inside⟩
    · exact ⟨paths, [], rfl, once.sublist, List.nil_sublist _⟩
    · obtain ⟨front, back, rfl, early, late⟩ := once.placed inside unlike
      exact ⟨front, back ++ [path], by simp, early, late.append (List.Sublist.refl [path])⟩

/-- What one more path does to the paths that are kept. -/
theorem addPath_cases (paths : List File.Path) (path : File.Path) :
    (∃ kept ∈ paths, kept.same path = true ∧ addPath paths path = paths) ∨
      ((∀ kept ∈ paths, kept.same path = false) ∧ addPath paths path = paths ++ [path]) := by
  unfold addPath
  split
  · rename_i known
    obtain ⟨kept, member, same⟩ := List.any_eq_true.mp known
    exact .inl ⟨kept, member, (same_comm kept path).trans same, rfl⟩
  · rename_i new
    refine .inr ⟨fun kept member => ?_, rfl⟩
    rw [same_comm, ← Bool.not_eq_true]
    exact fun same => new (List.any_eq_true.mpr ⟨kept, member, same⟩)

theorem eachOnce_foldl_addPath (order : List File.Path) :
    EachOnce order (order.foldl addPath []) := by
  induction order using List.reverseRecOn with
  | nil =>
      refine ⟨List.Sublist.refl [], List.Pairwise.nil, ?_⟩
      intro before path after split
      cases before <;> cases split
  | append_singleton order path once =>
      rw [List.foldl_concat]
      rcases addPath_cases (order.foldl addPath []) path with
        ⟨kept, member, same, known⟩ | ⟨new, added⟩
      · rw [known]
        exact once.concat_of_known member same
      · rw [added]
        exact once.concat_of_new new

/-- Paths that are passed over do not change what is found first, if an earlier spelling of each of
them is taken whenever it would be. -/
theorem find?_foldl_addPath {takes : File.Path → Bool}
    (earlier : order.Pairwise fun earlier later =>
      earlier.same later = true → takes later = true → takes earlier = true) :
    (order.foldl addPath []).find? takes = order.find? takes := by
  induction order using List.reverseRecOn with
  | nil => rfl
  | append_singleton order path ih =>
      obtain ⟨before, -, behind⟩ := List.pairwise_append.mp earlier
      have found := ih before
      rw [List.foldl_concat, List.find?_append, ← found]
      rcases addPath_cases (order.foldl addPath []) path with
        ⟨kept, member, same, known⟩ | ⟨-, added⟩
      · rw [known]
        cases first : (order.foldl addPath []).find? takes with
        | some taken => rfl
        | none =>
            have refused := List.find?_eq_none.mp first kept member
            have listed := (eachOnce_foldl_addPath order).sublist.subset member
            have passed : ¬ takes path = true :=
              fun taken => refused (behind kept listed path (List.mem_singleton.mpr rfl) same taken)
            rw [Option.none_or, List.find?_cons_of_neg passed, List.find?_nil]
      · rw [added, List.find?_append]

/-! ## The first file -/

/-- The first file among the places decides, whatever it turns out to be; without one the search
fails and names what it tried. -/
structure FirstFileDecides (library : Library) (tree : File.Tree) (name mcu : String)
    (tried places : List File.Path) : Prop where
  found : ∀ {before path after}, places = before ++ path :: after →
    (∀ earlier ∈ before, tree.isFile earlier = false) → tree.isFile path = true →
    library.load tree name = loadFile tree mcu path
  missing : ∀ {absent listed}, library.load tree name = .error (.notFound absent listed) ↔
    absent = mcu ∧ listed = tried ∧ ∀ path ∈ places, tree.isFile path = false

theorem loadFile_ne_notFound {listed : List File.Path} (file : tree.isFile path = true) :
    loadFile tree mcu path ≠ .error (.notFound other listed) := by
  rw [loadFile, if_pos file]
  intro failed
  split at failed
  · cases failed
  · dsimp only at failed
    split at failed <;> cases failed

theorem load_of_normalize? (named : Mcu.normalize? name = some mcu)
    (candidates : library.candidates name = .ok tried) :
    library.load tree name =
      match tried.find? tree.isFile with
      | none => .error (.notFound mcu tried)
      | some path => loadFile tree mcu path := by
  rw [Library.candidates, named] at candidates
  cases candidates
  unfold load
  split
  · rename_i unnamed
    cases unnamed.symm.trans named
  · rename_i canonical found
    cases found.symm.trans named
    rfl

theorem firstFileDecides_of_find? (named : Mcu.normalize? name = some mcu)
    (candidates : library.candidates name = .ok tried)
    (same : tried.find? tree.isFile = places.find? tree.isFile) :
    FirstFileDecides library tree name mcu tried places where
  found := by
    intro before path after split unfiled file
    have first : places.find? tree.isFile = some path := by
      refine List.find?_eq_some_iff_append.mpr ⟨file, before, after, split, ?_⟩
      intro earlier member
      rw [unfiled earlier member]
      rfl
    rw [load_of_normalize? named candidates, same, first]
  missing := by
    intro absent listed
    rw [load_of_normalize? named candidates, same]
    cases first : places.find? tree.isFile with
    | none =>
        have unfiled : ∀ path ∈ places, tree.isFile path = false := by
          simpa using List.find?_eq_none.mp first
        simp only [Except.error.injEq, Fault.notFound.injEq]
        constructor
        · rintro ⟨rfl, rfl⟩
          exact ⟨rfl, rfl, unfiled⟩
        · rintro ⟨rfl, rfl, -⟩
          exact ⟨rfl, rfl⟩
    | some path =>
        have file := List.find?_some first
        refine iff_of_false (loadFile_ne_notFound file) ?_
        rintro ⟨-, -, unfiled⟩
        exact absurd (file.symm.trans (unfiled path (List.mem_of_find?_eq_some first))) (by decide)

/-- The search for the table of a microcontroller among all its places. -/
structure Searches (library : Library) (tree : File.Tree) (name mcu : String)
    (places candidates : List File.Path) : Prop where
  listed : library.candidates name = .ok candidates
  once : EachOnce places candidates
  decided : FirstFileDecides library tree name mcu candidates candidates
  /-- It makes no difference that repetitions are left out, unless a file has an earlier spelling
  that trails. -/
  whole : (places.Pairwise fun earlier later =>
      earlier.same later = true → tree.isFile later = true → earlier.trails = false) →
    FirstFileDecides library tree name mcu candidates places

theorem searches_registered (root : File.Path) (tree : File.Tree)
    (accepted : ∀ entry ∈ registrations, ∃ mcu, Mcu.normalize? entry.1 = some mcu)
    (named : Mcu.normalize? name = some mcu) :
    ∃ library candidates, (atRoot root).registerEach registrations = .ok library ∧
      Searches library tree name mcu (allPlaces root registrations mcu) candidates := by
  obtain ⟨library, registered, rooted, added⟩ :=
    registerEach_of_normalize? (atRoot root) accepted
  have order : library.searchOrder mcu = allPlaces root registrations mcu := by
    rw [searchOrder, allPlaces, rooted, added]
    rfl
  have candidates : library.candidates name =
      .ok ((allPlaces root registrations mcu).foldl addPath []) := by
    rw [Library.candidates, named, ← order]
  refine ⟨library, _, registered, candidates, eachOnce_foldl_addPath _,
    firstFileDecides_of_find? named candidates rfl, ?_⟩
  intro untrailed
  refine firstFileDecides_of_find? named candidates (find?_foldl_addPath (untrailed.imp ?_))
  intro earlier later ends same file
  rw [File.Tree.isFile_of_same same (ends same file) (File.Tree.trails_of_isFile file)]
  exact file

/-- Places under two spellings of one name, of which the last is the first one again. -/
def spelledPlaces : List (String × List File.Path) :=
  [("f411", [⟨"t.c"⟩, ⟨"x.c"⟩]), ("STM32F411CEU6", [⟨"/y.c"⟩, ⟨"./../tables//t.c"⟩, ⟨".//t.c"⟩])]

/-- A table in one file. -/
def tableTree : File.Tree where
  nodes := [(["tables"], .directory),
    (["tables", "t.c"], .file "const PinMap PinMap_ADC[] = {{PA_0, ADC1, 0}};".toUTF8.toList)]
  working := []

theorem searches_spelledPlaces :
    (∀ entry ∈ spelledPlaces, ∃ mcu, Mcu.normalize? entry.1 = some mcu) ∧
      Mcu.normalize? " stm32f411 " = some "STM32F411" ∧
      ∃ library candidates, (atRoot ⟨"tables"⟩).registerEach spelledPlaces = .ok library ∧
        Searches library tableTree " stm32f411 " "STM32F411"
          (allPlaces ⟨"tables"⟩ spelledPlaces "STM32F411") candidates := by
  have canonical : ∀ entry ∈ spelledPlaces, Mcu.normalize? entry.1 = some "STM32F411" := by
    decide +kernel
  have accepted : ∀ entry ∈ spelledPlaces, ∃ mcu, Mcu.normalize? entry.1 = some mcu :=
    fun entry member => ⟨"STM32F411", canonical entry member⟩
  have named : Mcu.normalize? " stm32f411 " = some "STM32F411" := by decide +kernel
  exact ⟨accepted, named, searches_registered ⟨"tables"⟩ tableTree accepted named⟩

/-- A place with a slash at its end is no file, and keeps the file behind it from being found. -/
theorem exists_passed_over_file :
    ∃ library, (atRoot ⟨"tables"⟩).registerEach [("F411", [⟨"t.c/"⟩, ⟨"t.c"⟩])] = .ok library ∧
      (allPlaces ⟨"tables"⟩ [("F411", [⟨"t.c/"⟩, ⟨"t.c"⟩])] "STM32F411").find? tableTree.isFile =
        some ⟨"tables/t.c"⟩ ∧
      (loadFile tableTree "STM32F411" ⟨"tables/t.c"⟩).isOk = true ∧
      ∃ tried, library.load tableTree "F411" = .error (.notFound "STM32F411" tried) := by
  refine ⟨⟨⟨"tables"⟩, [("STM32F411", [⟨"t.c/"⟩, ⟨"t.c"⟩])]⟩, ?_, ?_, ?_, ?_⟩
  · rfl
  · decide +kernel
  · decide +kernel
  · have named : Mcu.normalize? "F411" = some "STM32F411" := by decide +kernel
    have candidates : (⟨⟨"tables"⟩, [("STM32F411", [⟨"t.c/"⟩, ⟨"t.c"⟩])]⟩ : Library).candidates
        "F411" = .ok [⟨"tables/t.c/"⟩, ⟨"tables/STM32F4xx/F411C(C-E)(U-Y)/PeripheralPins.c"⟩,
          ⟨"tables/STM32F411/PeripheralPins.c"⟩] := by rfl
    have search : FirstFileDecides _ tableTree _ _ _ _ :=
      firstFileDecides_of_find? named candidates rfl
    exact ⟨_, search.missing.mpr ⟨rfl, rfl, by decide +kernel⟩⟩

end Pinout.Library
