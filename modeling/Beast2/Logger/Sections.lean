import Mathlib.Algebra.GroupWithZero.Nat
import Mathlib.Data.List.Nodup
import Beast2.Lib.Mutex

/-!
# The registry of log sections

`log_sections` keeps one section for every name that was asked for, in a hash map for finding it and
in a vector for listing it (`logger.cpp:44-108`). A section is a shared pointer to its name, and the
keys of the map are views into these names. Every call holds the mutex, from the lookup to the
insertion into both containers.

After any calls the registry is the one of the distinct names asked for, in the order of the first
requests (`ofNames`); that `get` and `get_sections` keep to it is `run_get` and `run_getSections`,
and the calls of any number of threads are calls one after the other (`Lib.Mutex`).
-/

namespace Beast2.Logger

open Mutex

/-- A name: its bytes. -/
abbrev Name := List UInt8

/-! ## The registry -/

/-- `section::impl`. Reference: `logger.hpp:62`. -/
structure SectionImpl where
  name : Name
  level : Int := 0
deriving DecidableEq, Repr

/-- `section`: the shared pointer to its `impl`. Reference: `logger.hpp:23`. -/
structure Section where
  impl : Nat
deriving DecidableEq, Repr

/-- A view into the name of an object. -/
structure NameView where
  object : Nat
  size : Nat
deriving DecidableEq, Repr

/-- An element of the map, with the hash of its key at the time it was inserted. -/
structure Entry where
  key : NameView
  code : Nat
  value : Section
deriving DecidableEq, Repr

/-- `log_sections::impl`, with the objects that `make_shared` has made. Reference:
`logger.cpp:44`. -/
structure Impl where
  heap : List SectionImpl := []
  map : List Entry := []
  vec : List Section := []
deriving DecidableEq, Repr

/-- The loop of the hash function. Reference: `logger.cpp:53-54, 57-58`. -/
def fnv (basis prime size : Nat) (s : Name) : Nat :=
  s.foldl (fun hash c => (hash ^^^ c.toNat) * prime % size) basis

/-- `hash`, for a `std::size_t` of 32 bits or of 64. Reference: `logger.cpp:46-61`. -/
def hash (small : Bool) (s : Name) : Nat :=
  if small then fnv 2166136261 16777619 (2 ^ 32) s
  else fnv 1469598103934665603 1099511628211 (2 ^ 64) s

/-- `section::name`. Reference: `logger.hpp:30`. -/
def Impl.name (st : Impl) (s : Section) : Option Name := st.heap[s.impl]?.map SectionImpl.name

/-- What a view shows. -/
def Impl.text (st : Impl) (v : NameView) : Option Name :=
  st.heap[v.object]?.map (fun o => o.name.take v.size)

/-- `map.find`: an element with the hash of the key and an equal key. -/
def Impl.find (small : Bool) (st : Impl) (name : Name) : Option Entry :=
  st.map.find? fun e => e.code == hash small name && st.text e.key == some name

/-- `section(name)` and the object that it points to. Reference: `logger.cpp:35`. -/
def Impl.create (name : Name) (st : Impl) : Impl := { st with heap := st.heap ++ [{ name }] }

/-- `map.emplace` with the view of the section's name: nothing is inserted if the key is there.
Reference: `logger.cpp:92`. -/
def Impl.emplace (small : Bool) (v : Section) (st : Impl) : Impl :=
  match st.name v with
  | none => st
  | some name =>
    match st.find small name with
    | some _ => st
    | none => { st with map := st.map ++ [⟨⟨v.impl, name.length⟩, hash small name, v⟩] }

/-- `vec.push_back`. Reference: `logger.cpp:94`. -/
def Impl.pushBack (v : Section) (st : Impl) : Impl := { st with vec := st.vec ++ [v] }

/-- A call of `log_sections`. -/
inductive Call where
  | get (name : Name)
  | getSections
deriving DecidableEq, Repr

/-- What a call returns. -/
abbrev Result := Section ⊕ List Section

/-- The body of a call, under the mutex. Reference: `logger.cpp:80-108`. -/
def body (small : Bool) : Call → Body Impl Result
  | .get name =>
    .act id fun st =>
      match st.find small name with
      | some e => .done (.inl e.value)
      | none =>
        .act (Impl.create name) fun st =>
          let v : Section := ⟨st.heap.length⟩
          .act (Impl.emplace small v) fun _ =>
            .act (Impl.pushBack v) fun _ => .done (.inl v)
  | .getSections => .act id fun st => .done (.inr st.vec)

/-! ## The registry of a list of names -/

/-- The elements of the map for some names. -/
def entries (small : Bool) (names : List Name) : List Entry :=
  names.zipIdx.map fun x => ⟨⟨x.2, x.1.length⟩, hash small x.1, ⟨x.2⟩⟩

/-- The registry after some names have been asked for, in the order of the first requests. -/
def ofNames (small : Bool) (names : List Name) : Impl where
  heap := names.map fun n => { name := n }
  map := entries small names
  vec := (List.range names.length).map Section.mk

/-- The names with one more request. -/
def request (names : List Name) (name : Name) : List Name :=
  if name ∈ names then names else names ++ [name]

section

variable {small : Bool} {names : List Name} {name : Name} {st : Impl}

/-- The keys of a state show the names. -/
structure Shows (small : Bool) (st : Impl) (names : List Name) : Prop where
  map : st.map = entries small names
  text : ∀ i n, names[i]? = some n → st.text ⟨i, n.length⟩ = some n

theorem name_ofNames (i : Nat) : (ofNames small names).name ⟨i⟩ = names[i]? := by
  simp [Impl.name, ofNames, Function.comp_def]

/-- Objects that are made later do not change what the keys show. -/
theorem shows_ofNames (later : List SectionImpl) :
    Shows small { ofNames small names with heap := (ofNames small names).heap ++ later } names := by
  refine ⟨rfl, fun i n hn => ?_⟩
  obtain ⟨hi, -⟩ := List.getElem?_eq_some_iff.1 hn
  have hheap : ((ofNames small names).heap ++ later)[i]? = some { name := n } := by
    rw [List.getElem?_append_left (by simpa [ofNames] using hi)]
    simp [ofNames, hn]
  simp [Impl.text, hheap]

theorem shows_self : Shows small (ofNames small names) names := by
  simpa using @shows_ofNames small names []

/-- An element of the map is for a name, and stands where the name stands. -/
theorem mem_entries {e : Entry} :
    e ∈ entries small names ↔
      ∃ i n, names[i]? = some n ∧ e = ⟨⟨i, n.length⟩, hash small n, ⟨i⟩⟩ := by
  simp only [entries, List.mem_map, Prod.exists, List.mem_zipIdx_iff_getElem?]
  exact ⟨fun ⟨n, i, hn, he⟩ => ⟨i, n, hn, he.symm⟩, fun ⟨i, n, hn, he⟩ => ⟨n, i, hn, he.symm⟩⟩

/-- A name that was not asked for is not found. -/
theorem Shows.find_none (h : Shows small st names) (hname : name ∉ names) :
    st.find small name = none := by
  rw [Impl.find, h.map, List.find?_eq_none]
  intro e he
  obtain ⟨i, n, hn, rfl⟩ := mem_entries.1 he
  have hne : n ≠ name := fun hne => hname (hne ▸ List.mem_of_getElem? hn)
  simp [h.text i n hn, hne]

/-- A name that was asked for is found. -/
theorem Shows.find_some (h : Shows small st names) (hnodup : names.Nodup) (hname : name ∈ names) :
    ∃ e, st.find small name = some e ∧ e.value = ⟨names.idxOf name⟩ := by
  have hindex : names[names.idxOf name]? = some name := List.getElem?_idxOf hname
  have hfound : (st.find small name).isSome := by
    rw [Impl.find, h.map, List.find?_isSome]
    refine ⟨_, mem_entries.2 ⟨_, name, hindex, rfl⟩, ?_⟩
    simp [h.text _ _ hindex]
  obtain ⟨e, he⟩ := Option.isSome_iff_exists.1 hfound
  refine ⟨e, he, ?_⟩
  have hmem : e ∈ entries small names := h.map ▸ List.mem_of_find?_eq_some he
  obtain ⟨i, n, hn, rfl⟩ := mem_entries.1 hmem
  have hequal := List.find?_some he
  simp only [h.text i n hn, Bool.and_eq_true, beq_iff_eq, Option.some.injEq] at hequal
  -- the name stands at one place only
  obtain ⟨hi, hget⟩ := List.getElem?_eq_some_iff.1 hn
  rw [← hequal.2, ← hget, hnodup.idxOf_getElem i hi]

/-- `get` of a name that was asked for returns its section, `get` of any other adds one. -/
theorem run_get (hnodup : names.Nodup) :
    (body small (.get name)).run (ofNames small names) =
      (ofNames small (request names name), .inl ⟨(request names name).idxOf name⟩) := by
  by_cases hname : name ∈ names
  · obtain ⟨e, he, hvalue⟩ := shows_self.find_some hnodup hname
    rw [request, if_pos hname, body, Body.run, he]
    show (ofNames small names, Sum.inl e.value) = _
    rw [hvalue]
  · have hfind := (@shows_self small names).find_none hname
    have hcreated : Shows small ((ofNames small names).create name) names := shows_ofNames _
    have hname' : ((ofNames small names).create name).name ⟨names.length⟩ = some name := by
      simp [Impl.name, Impl.create, ofNames]
    have hlength : (ofNames small names).heap.length = names.length := by simp [ofNames]
    have hemplace : ((ofNames small names).create name).emplace small ⟨names.length⟩ =
        { (ofNames small names).create name with map := entries small (names ++ [name]) } := by
      rw [Impl.emplace, hname']
      simp only [hcreated.find_none hname]
      simp [entries, List.zipIdx_append, Impl.create, ofNames]
    rw [request, if_neg hname, body, Body.run, hfind]
    show ((((ofNames small names).create name).emplace small _).pushBack _, Sum.inl _) = _
    rw [id_eq, hlength, hemplace]
    simp [Impl.pushBack, Impl.create, ofNames, List.range_succ, List.idxOf_append, hname]

/-- `get_sections` returns the sections and changes nothing. -/
theorem run_getSections :
    (body small .getSections).run (ofNames small names) =
      (ofNames small names, .inr ((List.range names.length).map Section.mk)) := rfl

end

/-! ## What any calls leave -/

section

variable {τ : Type} {small : Bool} {log : List (τ × Call × Result)} {s : Impl}

/-- The names of the `get` calls, in the order in which they had the mutex. -/
def requested (log : List (τ × Call × Result)) : List Name :=
  log.filterMap fun x =>
    match x.2.1 with
    | .get name => some name
    | .getSections => none

/-- One more request among the distinct ones. -/
theorem request_eraseDups (names : List Name) (name : Name) :
    request names.eraseDups name = (names ++ [name]).eraseDups := by
  rw [List.eraseDups_append, request]
  by_cases hname : name ∈ names
  · rw [if_pos (List.mem_eraseDups.2 hname)]
    simp [List.removeAll, hname]
  · rw [if_neg (fun h => hname (List.mem_eraseDups.1 h))]
    simp [List.removeAll, hname, List.eraseDups_cons]

theorem nodup_request {names : List Name} (h : names.Nodup) (name : Name) :
    (request names name).Nodup := by
  unfold request
  split
  · exact h
  · next hname =>
    refine List.nodup_append.2 ⟨h, List.nodup_singleton name, ?_⟩
    rintro a ha b hb rfl
    exact hname (List.mem_singleton.1 hb ▸ ha)

theorem requested_append (log' : List (τ × Call × Result)) :
    requested (log ++ log') = requested log ++ requested log' := List.filterMap_append

theorem requested_snoc_get (t : τ) (name : Name) (r : Result) :
    requested (log ++ [(t, .get name, r)]) = requested log ++ [name] := requested_append _

theorem requested_snoc_getSections (t : τ) (r : Result) :
    requested (log ++ [(t, .getSections, r)]) = requested log :=
  (requested_append _).trans (List.append_nil _)

/-- What the calls of a log have returned. -/
structure Returned (log : List (τ × Call × Result)) : Prop where
  get : ∀ t name r, (t, .get name, r) ∈ log →
    r = .inl ⟨(requested log).eraseDups.idxOf name⟩
  getSections : ∀ before t r, before ++ [(t, .getSections, r)] <+: log →
    r = .inr ((List.range (requested before).eraseDups.length).map Section.mk)

theorem mem_requested {t : τ} {name : Name} {r : Result} (h : (t, .get name, r) ∈ log) :
    name ∈ requested log :=
  List.mem_filterMap.2 ⟨_, h, rfl⟩

/-- A name that was asked for keeps its place. -/
theorem idxOf_request {names : List Name} {name : Name} (h : name ∈ names) (other : Name) :
    (request names other).idxOf name = names.idxOf name := by
  unfold request
  split
  · rfl
  · exact List.idxOf_append_of_mem h

/-- Calls one after the other leave the registry of the names that were asked for. -/
theorem serial_ofNames (h : Serial (body small) {} log s) :
    s = ofNames small (requested log).eraseDups ∧ (requested log).eraseDups.Nodup ∧
      Returned log := by
  induction h with
  | nil =>
    refine ⟨rfl, List.nodup_nil, ⟨fun _ _ _ h => absurd h List.not_mem_nil, fun _ _ _ h => ?_⟩⟩
    exact absurd (List.prefix_nil.1 h) (by simp)
  | @snoc log s _ t c ih =>
    obtain ⟨rfl, hnodup, hreturned⟩ := ih
    cases c with
    | get name =>
      rw [run_get hnodup, requested_snoc_get, ← request_eraseDups]
      refine ⟨rfl, nodup_request hnodup name, ⟨fun t' name' r h => ?_, fun before t' r h => ?_⟩⟩
      · rw [requested_snoc_get, ← request_eraseDups]
        rcases List.mem_append.1 h with h | h
        · rw [idxOf_request (List.mem_eraseDups.2 (mem_requested h)), hreturned.get t' name' r h]
        · cases List.mem_singleton.1 h
          rfl
      · rcases List.prefix_concat_iff.1 h with h | h
        · cases (List.append_inj' h rfl).2
        · exact hreturned.getSections before t' r h
    | getSections =>
      rw [run_getSections, requested_snoc_getSections]
      refine ⟨rfl, hnodup, ⟨fun t' name' r h => ?_, fun before t' r h => ?_⟩⟩
      · rw [requested_snoc_getSections]
        rcases List.mem_append.1 h with h | h
        · exact hreturned.get t' name' r h
        · cases List.mem_singleton.1 h
      · rcases List.prefix_concat_iff.1 h with h | h
        · obtain ⟨rfl, hlast⟩ := List.append_inj' h rfl
          cases hlast
          rfl
        · exact hreturned.getSections before t' r h

/-- No action of a call takes an object away or changes one. -/
theorem body_grows (c : Call) : (body small c).Grows fun st st' => st.heap <+: st'.heap := by
  cases c with
  | get name =>
    refine .act (fun st => List.prefix_rfl) fun st => ?_
    split
    · exact .done _
    · refine .act (fun st => List.prefix_append _ _) fun st => .act (fun st => ?_) fun st =>
        .act (fun st => List.prefix_rfl) fun st => .done _
      unfold Impl.emplace
      split
      · exact List.prefix_rfl
      · split <;> exact List.prefix_rfl
  | getSections => exact .act (fun st => List.prefix_rfl) fun st => .done _

end

/-! ## The registry is consistent -/

/-- The registry of a state that threads have reached. Two `get` calls returned the same section
exactly if their names are equal. `get_sections` returned the sections of the distinct names that
had been asked for, in the order of the first requests. Every section reports its own name. While
the mutex is free, the map and the vector hold the same sections, each once, and every key is the
name of its section. -/
structure Consistent {τ : Type} (S : System τ Call Impl Result) : Prop where
  get : ∀ t name r, (t, .get name, r) ∈ S.log → ∃ s, r = .inl s ∧ S.shared.name s = some name
  same : ∀ t name s t' name' s', (t, .get name, .inl s) ∈ S.log →
    (t', .get name', .inl s') ∈ S.log → (s = s' ↔ name = name')
  getSections : ∀ before t r, before ++ [(t, .getSections, r)] <+: S.log → ∃ l, r = .inr l ∧
    l.Nodup ∧ l.map S.shared.name = (requested before).eraseDups.map some ∧
    ∀ t' name s, (t', .get name, .inl s) ∈ before → s ∈ l
  free : S.owner = none → (∀ s, s ∈ S.shared.vec ↔ s ∈ S.shared.map.map Entry.value) ∧
    S.shared.vec.Nodup ∧ (S.shared.map.map Entry.value).Nodup ∧
    ∀ e ∈ S.shared.map, ∃ name, S.shared.text e.key = some name ∧
      S.shared.name e.value = some name

section

variable {τ : Type} {small : Bool} {names : List Name} {st : Impl}

/-- Every section of the registry reports its name, also while a call makes further objects. -/
theorem name_kept (h : (ofNames small names).heap <+: st.heap) {i : Nat} {n : Name}
    (hn : names[i]? = some n) : st.name ⟨i⟩ = some n := by
  have hheap : (ofNames small names).heap[i]? = some { name := n } := by simp [ofNames, hn]
  obtain ⟨hi, -⟩ := List.getElem?_eq_some_iff.1 hheap
  obtain ⟨later, hlater⟩ := h
  rw [Impl.name, ← hlater, List.getElem?_append_left hi, hheap]
  rfl

/-- The sections of the names that were asked for first report these names. -/
theorem map_name_kept (h : (ofNames small names).heap <+: st.heap) {first : List Name}
    (hfirst : first <+: names) :
    ((List.range first.length).map Section.mk).map st.name = first.map some := by
  refine List.ext_getElem (by simp) fun i hi hi' => ?_
  have hlt : i < first.length := by simpa using hi'
  obtain ⟨later, hlater⟩ := hfirst
  have hn : names[i]? = some first[i] := by
    rw [← hlater, List.getElem?_append_left hlt, List.getElem?_eq_getElem hlt]
  simp [name_kept h hn]

theorem nodup_range_section (n : Nat) : ((List.range n).map Section.mk).Nodup :=
  List.nodup_range.map fun _ _ h => congrArg Section.impl h

/-- The sections in the map are those in the vector. -/
theorem map_value_entries : (entries small names).map Entry.value =
    (List.range names.length).map Section.mk := by
  have hvalue : Entry.value ∘ (fun x : Name × Nat => (⟨⟨x.2, x.1.length⟩, hash small x.1, ⟨x.2⟩⟩ :
      Entry)) = Section.mk ∘ Prod.snd := rfl
  rw [entries, List.map_map, hvalue, ← List.map_map, List.zipIdx_map_snd, List.range_eq_range']

end

/-- Whatever any number of threads do with an empty registry, it is consistent. -/
theorem sections_consistent {τ : Type} (small : Bool) (S : System τ Call Impl Result)
    (h : Reachable (body small) {} S) : Consistent S := by
  obtain ⟨s, hserial, hmatches, hheap, -⟩ :=
    serial_of_reachable (R := fun st st' => st.heap <+: st'.heap) (fun _ => List.prefix_rfl)
      (fun _ _ _ => List.IsPrefix.trans) body_grows h
  obtain ⟨rfl, hnodup, hreturned⟩ := serial_ofNames hserial
  refine ⟨fun t name r hr => ?_, fun t name s t' name' s' hs hs' => ?_, fun before t r hr => ?_,
    fun hfree => ?_⟩
  · refine ⟨_, hreturned.get t name r hr, name_kept hheap ?_⟩
    exact List.getElem?_idxOf (List.mem_eraseDups.2 (mem_requested hr))
  · obtain rfl := Sum.inl.inj (hreturned.get t name _ hs)
    obtain rfl := Sum.inl.inj (hreturned.get t' name' _ hs')
    rw [Section.mk.injEq]
    exact List.idxOf_inj (List.mem_eraseDups.2 (mem_requested hs))
  · have hfirst : (requested before).eraseDups <+: (requested S.log).eraseDups := by
      obtain ⟨after, hafter⟩ := hr
      rw [← hafter, List.append_assoc, requested_append, List.eraseDups_append]
      exact List.prefix_append _ _
    refine ⟨_, hreturned.getSections before t r hr, nodup_range_section _,
      map_name_kept hheap hfirst, fun t' name s hs => ?_⟩
    -- the place of a name is the same among the names asked for before
    have hmem := List.mem_eraseDups.2 (mem_requested hs)
    have hlog : before <+: S.log := (List.prefix_append before _).trans hr
    obtain rfl := Sum.inl.inj (hreturned.get t' name _ (hlog.subset hs))
    obtain ⟨later, hlater⟩ := hfirst
    rw [← hlater, List.idxOf_append_of_mem hmem]
    exact List.mem_map_of_mem (List.mem_range.2 (List.idxOf_lt_length_of_mem hmem))
  · rw [Matches, hfree] at hmatches
    have hshared : S.shared = ofNames small (requested S.log).eraseDups := hmatches
    have hvec : S.shared.vec = S.shared.map.map Entry.value := by
      rw [hshared]
      exact map_value_entries.symm
    have hvecnodup : S.shared.vec.Nodup := by
      rw [hshared]
      exact nodup_range_section _
    refine ⟨fun s => by rw [hvec], hvecnodup, hvec ▸ hvecnodup, fun e he => ?_⟩
    rw [hshared] at he ⊢
    obtain ⟨i, n, hn, rfl⟩ := mem_entries.1 he
    exact ⟨n, shows_self.text i n hn, (name_ofNames i).trans hn⟩

/-- Two threads ask for two names, and for the first one again. -/
theorem two_threads_consistent :
    ∃ S : System Nat Call Impl Result, Reachable (body false) {} S ∧
      S.log.map (fun x => x.2.1) =
        [.get [97], .get [98], .getSections, .get [97]] ∧ Consistent S := by
  have hserial := (((@Serial.nil Impl Result Call Nat (body false) {}).snoc 0 (.get [97])).snoc 1
    (.get [98])).snoc 0 .getSections |>.snoc 1 (.get [97])
  have hreachable := reachable_of_serial hserial
  exact ⟨_, hreachable, rfl, sections_consistent false _ hreachable⟩

end Beast2.Logger
