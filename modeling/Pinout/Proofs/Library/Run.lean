import Mathlib.Data.Set.Card
import Pinout.Proofs.Library.Shelf

/-! Runs of requests to a shelf of tables. Each request comes with the files as they are at its
time, so that a run may change them at will between two requests. The shelf keeps a record of
the run: a slot for every microcontroller that was ever served, with the table that the library
had when that first happened. -/

set_option autoImplicit false

namespace Pinout.Library

/-- A name by which a table is asked for, and the files at the time of asking. -/
structure Request where
  files : File.Tree
  name : String

namespace Shelf

variable {library : Library} {shelf : Shelf} {tree : File.Tree} {requests : List Request}
  {request : Request} {name mcu other : String} {place slot later second : Nat}
  {loaded found : Loaded}

/-- The shelf of a library after a run of requests. -/
def after (library : Library) (requests : List Request) : Shelf :=
  requests.foldl (fun shelf request => (shelf.get request.files request.name).2) (empty library)

/-- What a request is answered with after a run of others. -/
def answer (library : Library) (earlier : List Request) (request : Request) :
    Except Fault (Nat × Loaded) :=
  ((after library earlier).get request.files request.name).1

/-- The request at a place of a run names a microcontroller, and is answered with a slot of the
shelf and the table there. -/
def Served (library : Library) (requests : List Request) (place : Nat) (mcu : String)
    (slot : Nat) (loaded : Loaded) : Prop :=
  ∃ request, requests[place]? = some request ∧ Mcu.normalize? request.name = some mcu ∧
    answer library (requests.take place) request = .ok (slot, loaded)

theorem after_concat :
    after library (requests ++ [request]) =
      ((after library requests).get request.files request.name).2 :=
  List.foldl_concat ..

/-! ## One request -/

theorem standing?_eq_none_iff : shelf.standing? mcu = none ↔ mcu ∉ shelf.tables.map Prod.fst := by
  unfold standing?
  constructor
  · intro absent member
    obtain ⟨entry, listed, rfl⟩ := List.mem_map.mp member
    split at absent
    · rename_i nowhere
      simpa using List.findIdx?_eq_none_iff.mp nowhere entry listed
    · rename_i index here
      obtain ⟨inside, -, -⟩ := List.findIdx?_eq_some_iff_getElem.mp here
      simp [List.getElem?_eq_getElem inside] at absent
  · intro absent
    have nowhere : shelf.tables.findIdx? (fun entry => entry.1 = mcu) = none := by
      refine List.findIdx?_eq_none_iff.mpr fun entry listed => decide_eq_false ?_
      rintro rfl
      exact absent (List.mem_map_of_mem listed)
    rw [nowhere]

/-- What a request that succeeds does: it finds the table on the shelf, or it loads the table
and puts it in a new slot at the end. -/
theorem get_ok_cases (found : Mcu.normalize? name = some mcu)
    (given : (shelf.get tree name).1 = .ok (slot, loaded)) :
    (shelf.tables[slot]? = some (mcu, loaded) ∧ (shelf.get tree name).2 = shelf) ∨
      (mcu ∉ shelf.tables.map Prod.fst ∧ slot = shelf.size ∧
        shelf.library.load tree mcu = .ok loaded ∧
        (shelf.get tree name).2 = ⟨shelf.library, shelf.tables ++ [(mcu, loaded)]⟩) := by
  unfold get at given ⊢
  rw [found] at given ⊢
  dsimp only at given ⊢
  cases standing : shelf.standing? mcu with
  | some held =>
      rw [standing] at given
      cases given
      exact .inl ⟨getElem?_of_standing? standing, rfl⟩
  | none =>
      rw [standing] at given
      dsimp only at given ⊢
      cases fetched : shelf.library.load tree mcu with
      | error fault => rw [fetched] at given; cases given
      | ok fresh =>
          rw [fetched] at given
          cases given
          exact .inr ⟨standing?_eq_none_iff.mp standing, rfl, rfl, rfl⟩

/-- A name that nothing stands under is loaded. -/
theorem get_of_absent (found : Mcu.normalize? name = some mcu)
    (absent : mcu ∉ shelf.tables.map Prod.fst) :
    (shelf.get tree name).1.map Prod.snd = shelf.library.load tree name := by
  unfold get
  rw [found, ← load_canonical found]
  dsimp only
  rw [standing?_eq_none_iff.mpr absent]
  dsimp only
  cases shelf.library.load tree mcu <;> rfl

/-- A name that a table stands under is answered with that table. -/
theorem get_of_present (tree : File.Tree) (found : Mcu.normalize? name = some mcu)
    (present : mcu ∈ shelf.tables.map Prod.fst) :
    ∃ slot loaded, (shelf.get tree name).1 = .ok (slot, loaded) := by
  unfold get
  rw [found]
  dsimp only
  cases standing : shelf.standing? mcu with
  | none => exact absurd present (standing?_eq_none_iff.mp standing)
  | some held => exact ⟨held.1, held.2, rfl⟩

/-! ## A run of requests -/

theorem not_served_nil : ¬ Served library [] place mcu slot loaded := by
  rintro ⟨request, listed, -⟩
  cases listed

/-- The last request of a run sees what the others left, and does not change what they saw. -/
theorem served_concat_iff :
    Served library (requests ++ [request]) place mcu slot loaded ↔
      Served library requests place mcu slot loaded ∨
        place = requests.length ∧ Mcu.normalize? request.name = some mcu ∧
          answer library requests request = .ok (slot, loaded) := by
  unfold Served
  rcases Nat.lt_trichotomy place requests.length with inside | last | beyond
  · rw [List.getElem?_append_left inside, List.take_append_of_le_length inside.le]
    simp [inside.ne]
  · subst last
    simp
  · have outside : (requests ++ [request])[place]? = none :=
      List.getElem?_eq_none (by simpa using beyond)
    rw [outside, List.getElem?_eq_none beyond.le]
    simp [beyond.ne']

theorem Served.lt_length (served : Served library requests place mcu slot loaded) :
    place < requests.length := by
  obtain ⟨request, listed, -⟩ := served
  exact (List.getElem?_eq_some_iff.mp listed).1

/-- A microcontroller is served for the first time at a place of a run, with the table that the
library has in the files of that place. -/
structure First (library : Library) (requests : List Request) (place : Nat) (mcu : String)
    (slot : Nat) (loaded : Loaded) : Prop where
  served : Served library requests place mcu slot loaded
  loaded : ∃ request, requests[place]? = some request ∧
    library.load request.files request.name = .ok loaded
  earliest : ∀ {earlier slot loaded}, Served library requests earlier mcu slot loaded →
    place ≤ earlier

theorem First.concat (first : First library requests place mcu slot loaded) (request : Request) :
    First library (requests ++ [request]) place mcu slot loaded where
  served := served_concat_iff.mpr (.inl first.served)
  loaded := by
    obtain ⟨origin, listed, given⟩ := first.loaded
    refine ⟨origin, ?_, given⟩
    rw [List.getElem?_append_left first.served.lt_length, listed]
  earliest := by
    intro earlier slot loaded served
    rcases served_concat_iff.mp served with before | ⟨rfl, -⟩
    · exact first.earliest before
    · exact first.served.lt_length.le

/-- What a shelf keeps of a run of requests: whatever was served stands in its slot, and
whatever stands in a slot was served from there, at first with the table of that time. -/
structure Records (library : Library) (requests : List Request) (shelf : Shelf) : Prop where
  source : shelf.library = library
  distinct : (shelf.tables.map Prod.fst).Nodup
  kept : ∀ {place mcu slot loaded}, Served library requests place mcu slot loaded →
    shelf.tables[slot]? = some (mcu, loaded)
  origin : ∀ {slot mcu loaded}, shelf.tables[slot]? = some (mcu, loaded) →
    ∃ place, First library requests place mcu slot loaded

theorem records_empty (library : Library) : Records library [] (empty library) where
  source := rfl
  distinct := List.nodup_nil
  kept served := absurd served not_served_nil
  origin stands := by cases stands

/-- A request that fails, or that finds its table on the shelf, leaves the record as it is. -/
theorem Records.concat_of_same (records : Records library requests (after library requests))
    (same : after library (requests ++ [request]) = after library requests)
    (kept : ∀ {mcu slot loaded}, Mcu.normalize? request.name = some mcu →
      answer library requests request = .ok (slot, loaded) →
      (after library requests).tables[slot]? = some (mcu, loaded)) :
    Records library (requests ++ [request]) (after library (requests ++ [request])) := by
  rw [same]
  refine ⟨records.source, records.distinct, ?_, ?_⟩
  · intro place mcu slot loaded served
    rcases served_concat_iff.mp served with before | ⟨-, named, given⟩
    · exact records.kept before
    · exact kept named given
  · intro slot mcu loaded stands
    obtain ⟨place, first⟩ := records.origin stands
    exact ⟨place, first.concat request⟩

/-- A request that loads a table adds its slot to the record. -/
theorem Records.concat_of_new (records : Records library requests (after library requests))
    (named : Mcu.normalize? request.name = some mcu)
    (given : answer library requests request = .ok ((after library requests).size, loaded))
    (absent : mcu ∉ (after library requests).tables.map Prod.fst)
    (fetched : library.load request.files request.name = .ok loaded)
    (grown : after library (requests ++ [request]) =
      ⟨library, (after library requests).tables ++ [(mcu, loaded)]⟩) :
    Records library (requests ++ [request]) (after library (requests ++ [request])) := by
  rw [grown]
  refine ⟨rfl, ?_, ?_, ?_⟩
  · rw [List.map_append, List.nodup_append]
    refine ⟨records.distinct, List.nodup_singleton _, ?_⟩
    rintro listed member fresh new rfl
    rw [List.mem_singleton.mp new] at member
    exact absent member
  · intro place asked slot held served
    rcases served_concat_iff.mp served with before | ⟨-, same, again⟩
    · have stands := records.kept before
      rw [List.getElem?_append_left (List.getElem?_eq_some_iff.mp stands).1, stands]
    · rw [named, Option.some.injEq] at same
      rw [given, Except.ok.injEq, Prod.mk.injEq] at again
      rw [← again.1, ← again.2, ← same]
      exact List.getElem?_concat_length
  · intro slot asked held stands
    rcases Nat.lt_or_ge slot (after library requests).tables.length with inside | outside
    · rw [List.getElem?_append_left inside] at stands
      obtain ⟨place, first⟩ := records.origin stands
      exact ⟨place, first.concat request⟩
    · obtain ⟨last, rfl, rfl⟩ : slot = (after library requests).size ∧ asked = mcu ∧
          held = loaded := by
        rw [List.getElem?_append_right outside, List.getElem?_singleton] at stands
        split at stands
        · rename_i zero
          cases stands
          exact ⟨Nat.le_antisymm (Nat.sub_eq_zero_iff_le.mp zero) outside, rfl, rfl⟩
        · cases stands
      subst last
      refine ⟨requests.length, served_concat_iff.mpr (.inr ⟨rfl, named, given⟩),
        ⟨request, List.getElem?_concat_length, fetched⟩, ?_⟩
      intro earlier slot other served
      rcases served_concat_iff.mp served with before | ⟨rfl, -⟩
      · have stood := List.mem_of_getElem? (records.kept before)
        exact absurd (List.mem_map_of_mem stood) absent
      · exact le_rfl

/-- Each request keeps the record. -/
theorem Records.concat (records : Records library requests (after library requests))
    (request : Request) :
    Records library (requests ++ [request]) (after library (requests ++ [request])) := by
  cases given : answer library requests request with
  | error fault =>
      refine records.concat_of_same ?_ ?_
      · rw [after_concat]
        exact get_of_error given
      · intro mcu slot loaded _ again
        rw [given] at again
        cases again
  | ok served =>
      obtain ⟨slot, loaded⟩ := served
      cases named : Mcu.normalize? request.name with
      | none =>
          have refused : answer library requests request = .error (.unknownMcu request.name) := by
            rw [answer, get, named]
          rw [refused] at given
          cases given
      | some mcu =>
          rcases get_ok_cases named given with ⟨stands, same⟩ | ⟨absent, rfl, fetched, grown⟩
          · refine records.concat_of_same ?_ ?_
            · rw [after_concat, same]
            · intro other second found again answered
              rw [given] at answered
              cases named.symm.trans again
              cases answered
              exact stands
          · rw [records.source] at fetched grown
            rw [load_canonical named] at fetched
            exact records.concat_of_new named given absent fetched (after_concat.trans grown)

/-- After every run of requests the shelf is the record of the run. -/
theorem records_after (library : Library) (requests : List Request) :
    Records library requests (after library requests) := by
  induction requests using List.reverseRecOn with
  | nil => exact records_empty library
  | append_singleton earlier request records => exact records.concat request

/-! ## What every run shows -/

/-- A run that stops early serves the same until it stops. -/
theorem served_take_iff :
    Served library (requests.take second) place mcu slot loaded ↔
      place < second ∧ Served library requests place mcu slot loaded := by
  unfold Served
  rcases Nat.lt_or_ge place second with inside | outside
  · rw [List.getElem?_take_of_lt inside, List.take_take, Nat.min_eq_left inside.le]
    exact (and_iff_right inside).symm
  · rw [List.getElem?_take_eq_none outside]
    simp [outside.not_gt]

/-- The names that stand on the shelf are those that were served. -/
theorem Records.mem_names_iff (records : Records library requests shelf) :
    mcu ∈ shelf.tables.map Prod.fst ↔
      ∃ place slot loaded, Served library requests place mcu slot loaded := by
  constructor
  · intro member
    obtain ⟨⟨named, loaded⟩, listed, rfl⟩ := List.mem_map.mp member
    obtain ⟨slot, stands⟩ := List.mem_iff_getElem?.mp listed
    obtain ⟨place, first⟩ := records.origin stands
    exact ⟨place, slot, loaded, first.served⟩
  · rintro ⟨place, slot, loaded, served⟩
    exact List.mem_map_of_mem (List.mem_of_getElem? (records.kept served))

/-- The slot of a name is one slot, and a slot is of one name. -/
theorem Records.slot_eq_iff (records : Records library requests shelf)
    (served : Served library requests place mcu slot loaded)
    (again : Served library requests later other second found) :
    slot = second ↔ mcu = other := by
  have stands := records.kept served
  have stands' := records.kept again
  constructor
  · rintro rfl
    rw [stands, Option.some.injEq, Prod.mk.injEq] at stands'
    exact stands'.1
  · rintro rfl
    have named : (shelf.tables.map Prod.fst)[slot]? = some mcu := by
      rw [List.getElem?_map, stands]
      rfl
    have named' : (shelf.tables.map Prod.fst)[second]? = some mcu := by
      rw [List.getElem?_map, stands']
      rfl
    obtain ⟨inside, -⟩ := List.getElem?_eq_some_iff.mp named
    exact (List.getElem?_inj inside records.distinct).mp (named.trans named'.symm)

/-- What the answers and the shelf of a run have in common, however the files change. -/
structure Consistent (library : Library) (requests : List Request) : Prop where
  named : ∀ {place request slot loaded}, requests[place]? = some request →
    answer library (requests.take place) request = .ok (slot, loaded) →
    ∃ mcu, Served library requests place mcu slot loaded
  shared : ∀ {place mcu slot loaded later other second found},
    Served library requests place mcu slot loaded →
    Served library requests later other second found →
    (slot = second ↔ mcu = other) ∧ (slot = second → loaded = found)
  first : ∀ {place mcu slot loaded}, Served library requests place mcu slot loaded →
    ∃ earliest ≤ place, First library requests earliest mcu slot loaded
  lasting : ∀ {place mcu slot loaded later request},
    Served library requests place mcu slot loaded → place < later →
    requests[later]? = some request → Mcu.normalize? request.name = some mcu →
    answer library (requests.take later) request = .ok (slot, loaded)
  failed : ∀ {place request fault}, requests[place]? = some request →
    answer library (requests.take place) request = .error fault →
    after library (requests.take (place + 1)) = after library (requests.take place)
  retried : ∀ {place mcu request}, requests[place]? = some request →
    Mcu.normalize? request.name = some mcu →
    (∀ earlier < place, ∀ slot loaded, ¬ Served library requests earlier mcu slot loaded) →
    (answer library (requests.take place) request).map Prod.snd =
      library.load request.files request.name
  size : (after library requests).size =
    {mcu | ∃ place slot loaded, Served library requests place mcu slot loaded}.ncard

/-- Every answer of a run that succeeds names a microcontroller. -/
theorem served_of_answer (listed : requests[place]? = some request)
    (given : answer library (requests.take place) request = .ok (slot, loaded)) :
    ∃ mcu, Served library requests place mcu slot loaded := by
  cases named : Mcu.normalize? request.name with
  | some mcu => exact ⟨mcu, request, listed, named, given⟩
  | none =>
      rw [answer, get, named] at given
      cases given

/-- Who was served before is served the same. -/
theorem answer_of_served (served : Served library requests place mcu slot loaded)
    (before : place < later) (listed : requests[later]? = some request)
    (named : Mcu.normalize? request.name = some mcu) :
    answer library (requests.take later) request = .ok (slot, loaded) := by
  have records := records_after library (requests.take later)
  have earlier := served_take_iff.mpr ⟨before, served⟩
  obtain ⟨second, found, given⟩ := get_of_present request.files named
    (records.mem_names_iff.mpr ⟨place, slot, loaded, earlier⟩)
  have again : Served library requests later mcu second found := ⟨request, listed, named, given⟩
  have whole := records_after library requests
  obtain rfl := (whole.slot_eq_iff served again).mpr rfl
  have same := (whole.kept served).symm.trans (whole.kept again)
  cases same
  exact given

theorem consistent_run (library : Library) (requests : List Request) :
    Consistent library requests where
  named := served_of_answer
  shared served again := by
    have records := records_after library requests
    refine ⟨records.slot_eq_iff served again, ?_⟩
    rintro rfl
    cases (records.kept served).symm.trans (records.kept again)
    rfl
  first served := by
    obtain ⟨earliest, first⟩ := (records_after library requests).origin
      ((records_after library requests).kept served)
    exact ⟨earliest, first.earliest served, first⟩
  lasting := answer_of_served
  failed listed given := by
    rw [List.take_add_one, listed, Option.toList_some, after_concat]
    exact get_of_error given
  retried {place _ request} listed named unserved := by
    have records := records_after library (requests.take place)
    rw [answer, get_of_absent named, records.source]
    rw [records.mem_names_iff]
    rintro ⟨earlier, slot, loaded, served⟩
    obtain ⟨before, served⟩ := served_take_iff.mp served
    exact unserved earlier before slot loaded served
  size := by
    have records := records_after library requests
    have names : {mcu | ∃ place slot loaded, Served library requests place mcu slot loaded} =
        ((after library requests).tables.map Prod.fst).toFinset := by
      ext mcu
      rw [Finset.mem_coe, List.mem_toFinset, records.mem_names_iff, Set.mem_ofPred_eq]
    rw [names, Set.ncard_coe_finset, List.toFinset_card_of_nodup records.distinct,
      List.length_map, size]

end Shelf

end Pinout.Library
