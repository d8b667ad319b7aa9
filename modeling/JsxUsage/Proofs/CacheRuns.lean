import JsxUsage.Proofs.CachedFiles
import Mathlib.Data.Finset.Card

/-!
# Runs of the parse cache

Any number of callers ask one cache for files, while the files change.  A request takes two
steps, and the steps of other requests may come between them: it opens the slot of its absolute
path, and later it fills the slot, unless the slot is full, and takes what is in it.  Of the
requests that find a slot empty only one fills it.

The main result is that a run reads each file once, whatever the order of its steps: all requests
for a file are answered from that one reading, and the failures are those of these readings.
-/

namespace JsxUsage
namespace ParseCache

/-!
# Steps
-/

/-- A request for a file. -/
structure Request where
  /-- The absolute path, as it was when the request was made. -/
  key : Path
  /-- What the request got, once it is complete. -/
  answer : Option (Option SourceFile)

/-- A cache in use, with the requests that were made so far. -/
structure Session where
  tree : FileTree
  cache : ParseCache
  requests : List Request

/-- What can happen next. -/
inductive Event where
  /-- Files are written or removed. -/
  | change (tree : FileTree)
  /-- A request is made, and opens its slot. -/
  | ask (path : Path)
  /-- The request of a number goes on to its end. -/
  | complete (number : Nat)

/-- Whether the slot of an absolute path is open and empty. -/
def awaits (c : ParseCache) (key : Path) : Bool :=
  match c.slots.get? key with
  | some none => true
  | _ => false

namespace Session

def start (strict : Bool) (t : FileTree) : Session := ⟨t, new strict, []⟩

/-- The path of the request of a number, if it was made and is not complete. -/
def pending? (s : Session) (number : Nat) : Option Path :=
  match s.requests[number]? with
  | some ⟨key, none⟩ => some key
  | _ => none

/-- Complete the request of a number, which is for the path `key`. -/
def finish (s : Session) (number : Nat) (key : Path) : Session :=
  { s with
    cache := s.cache.fillSlot s.tree key
    requests := s.requests.set number ⟨key, some ((s.cache.fillSlot s.tree key).source? key)⟩ }

def step (s : Session) : Event -> Session
  | .change t => { s with tree := t }
  | .ask path =>
      { s with
        cache := s.cache.openSlot (s.tree.absolute path)
        requests := s.requests ++ [⟨s.tree.absolute path, none⟩] }
  | .complete number =>
      match s.pending? number with
      | some key => s.finish number key
      | none => s

/-- The reading that an event brings about: a request that is completed while its slot is empty
reads its file from the tree as it is then. -/
def reading? (s : Session) : Event -> Option (Path × FileTree)
  | .complete number =>
      (s.pending? number).bind fun key =>
        if s.cache.awaits key then some (key, s.tree) else none
  | _ => none

def after (s : Session) (events : List Event) : Session :=
  events.foldl step s

/-- All readings of a run, in order. -/
def readings (s : Session) : List Event -> List (Path × FileTree)
  | [] => []
  | e :: rest => (s.reading? e).toList ++ (s.step e).readings rest

theorem step_complete {s : Session} {number : Nat} {key : Path}
    (h : s.pending? number = some key) : s.step (.complete number) = s.finish number key := by
  simp only [step, h]

/-- A request that goes on to its end at once is what asking for a file means. -/
theorem ask_complete (s : Session) (path : Path) :
    (s.step (.ask path)).step (.complete s.requests.length) =
      { s with
        cache := (s.cache.get s.tree path).1
        requests := s.requests ++ [⟨s.tree.absolute path, some (s.cache.get s.tree path).2⟩] } := by
  have hpending : (s.step (.ask path)).pending? s.requests.length =
      some (s.tree.absolute path) := by
    simp [pending?, step]
  rw [step_complete hpending]
  simp [finish, step, get]

end Session

/-!
# What the cache holds

After some readings the cache holds what they gave, and nothing else.  Opening a slot does not
change this, and filling one adds a reading.
-/

/-- What a reading gave. -/
def resultOf (strict : Bool) (reading : Path × FileTree) : LoadResult :=
  outcome strict reading.2 reading.1

structure Holds (strict : Bool) (readings : List (Path × FileTree)) (c : ParseCache) : Prop where
  mode : c.strict = strict
  count : c.parses = readings.length
  once : readings.Pairwise fun first second => (first.1 == second.1) = false
  full : forall key held, c.slots.get? key = some (some held) <->
    exists reading, reading ∈ readings ∧ (reading.1 == key) = true ∧
      held = (resultOf strict reading).toOption
  failed : c.failed.pairs =
    readings.flatMap fun reading => failureOf reading.1 (resultOf strict reading)

theorem holds_new (strict : Bool) : Holds strict [] (new strict) where
  mode := rfl
  count := rfl
  once := List.Pairwise.nil
  full key held := by simp [new, Index.empty, Index.get?, Index.find]
  failed := rfl

theorem get?_isSome_of_contains {c : ParseCache} {key : Path} (h : c.slots.contains key = true) :
    exists slot, c.slots.get? key = some slot :=
  Option.isSome_iff_exists.mp h

theorem get?_of_not_contains {c : ParseCache} {key : Path} (h : c.slots.contains key = false) :
    c.slots.get? key = none :=
  Option.isSome_eq_false_iff.mp h |> Option.isNone_iff_eq_none.mp

section

variable {strict : Bool} {readings : List (Path × FileTree)} {c : ParseCache}

theorem Holds.unread (h : Holds strict readings c) {key : Path}
    (hempty : forall held, c.slots.get? key ≠ some (some held)) {reading : Path × FileTree}
    (hreading : reading ∈ readings) : (reading.1 == key) = false := by
  cases hsame : (reading.1 == key) with
  | false => rfl
  | true => exact absurd ((h.full key _).mpr ⟨reading, hreading, hsame, rfl⟩) (hempty _)

theorem Holds.openSlot (h : Holds strict readings c) (key : Path) :
    Holds strict readings (c.openSlot key) := by
  cases hopen : c.slots.contains key with
  | true =>
      rw [openSlot_of_contains hopen]
      exact h
  | false =>
      rw [openSlot_of_new hopen]
      refine ⟨h.mode, h.count, h.once, ?_, h.failed⟩
      intro other held
      rw [Index.get?_put]
      cases hsame : (key == other) with
      | false => exact h.full other held
      | true =>
          have hempty : c.slots.get? other = none := by
            rw [← Index.get?_congr hsame]
            exact get?_of_not_contains hopen
          rw [← h.full other held, hempty]
          simp

theorem Holds.keep (h : Holds strict readings c) {key : Path} (t : FileTree)
    (hempty : c.slots.get? key = some none) :
    Holds strict (readings ++ [(key, t)]) (c.keep key (outcome strict t key)) := by
  have hunread : forall reading, reading ∈ readings -> (reading.1 == key) = false := by
    intro reading hreading
    refine h.unread ?_ hreading
    intro held
    rw [hempty]
    simp
  constructor
  · rw [keep_strict, h.mode]
  · rw [keep_parses, h.count, List.length_append]
    rfl
  · refine List.pairwise_append.mpr ⟨h.once, List.pairwise_singleton _ _, ?_⟩
    intro reading hreading last hlast
    rw [List.mem_singleton.mp hlast]
    exact hunread reading hreading
  · intro other held
    rw [keep_slots, Index.get?_put]
    cases hsame : (key == other) with
    | false =>
        rw [if_neg Bool.false_ne_true, h.full other held]
        constructor
        · intro hfull
          rcases hfull with ⟨reading, hreading, hother, hheld⟩
          exact ⟨reading, List.mem_append_left _ hreading, hother, hheld⟩
        · intro hfull
          rcases hfull with ⟨reading, hreading, hother, hheld⟩
          rcases List.mem_append.mp hreading with hearlier | hlast
          · exact ⟨reading, hearlier, hother, hheld⟩
          · rw [List.mem_singleton.mp hlast, hsame] at hother
            cases hother
    | true =>
        rw [if_pos rfl, Option.some.injEq, Option.some.injEq]
        constructor
        · intro hheld
          exact ⟨(key, t), List.mem_append_right _ List.mem_cons_self, hsame, hheld.symm⟩
        · intro hfull
          rcases hfull with ⟨reading, hreading, hother, hheld⟩
          rcases List.mem_append.mp hreading with hearlier | hlast
          · have hkey := hunread reading hearlier
            rw [BEq.congr_right hsame, hother] at hkey
            cases hkey
          · rw [hheld, List.mem_singleton.mp hlast]
            rfl
  · have hnew : forall pair, pair ∈ c.failed.pairs -> (pair.1 == key) = false := by
      intro pair hpair
      rw [h.failed] at hpair
      rcases List.mem_flatMap.mp hpair with ⟨reading, hreading, hfailure⟩
      rw [(mem_failureOf.mp hfailure).left]
      exact hunread reading hreading
    rw [keep_failed _ hnew, h.failed, List.flatMap_append, List.flatMap_singleton]
    rfl

end

/-!
Slots are never closed, and a full one never changes.
-/

theorem contains_openSlot (c : ParseCache) (key other : Path) :
    (c.openSlot key).slots.contains other = true <->
      c.slots.contains other = true ∨ (key == other) = true := by
  cases hopen : c.slots.contains key with
  | true =>
      rw [openSlot_of_contains hopen]
      constructor
      · exact Or.inl
      · intro h
        rcases h with hother | hsame
        · exact hother
        · rwa [Index.contains, ← Index.get?_congr hsame]
  | false =>
      rw [openSlot_of_new hopen]
      show ((c.slots.put key none).get? other).isSome = true <-> _
      rw [Index.get?_put]
      cases hsame : (key == other) with
      | true => simp
      | false => simp [Index.contains]

theorem get?_openSlot_of_full {c : ParseCache} {other : Path} {held : Option SourceFile}
    (h : c.slots.get? other = some (some held)) (key : Path) :
    (c.openSlot key).slots.get? other = some (some held) := by
  cases hopen : c.slots.contains key with
  | true =>
      rw [openSlot_of_contains hopen]
      exact h
  | false =>
      rw [openSlot_of_new hopen]
      show (c.slots.put key none).get? other = _
      rw [Index.get?_put]
      cases hsame : (key == other) with
      | false => exact h
      | true =>
          rw [← Index.get?_congr hsame, get?_of_not_contains hopen] at h
          cases h

/-- What filling a slot that is open does: it is full already, or it gets a reading. -/
theorem fillSlot_cases {c : ParseCache} {key : Path} (h : c.slots.contains key = true)
    (t : FileTree) :
    (exists held, c.slots.get? key = some (some held) ∧ c.fillSlot t key = c) ∨
      (c.slots.get? key = some none ∧ c.fillSlot t key = c.keep key (outcome c.strict t key)) := by
  rcases get?_isSome_of_contains h with ⟨slot, hslot⟩
  cases slot with
  | none => exact Or.inr ⟨hslot, fillSlot_of_empty hslot⟩
  | some held => exact Or.inl ⟨held, hslot, fillSlot_of_full hslot⟩

section

variable {c : ParseCache} {key : Path} (hopen : c.slots.contains key = true) (t : FileTree)
include hopen

theorem full_fillSlot : exists held, (c.fillSlot t key).slots.get? key = some (some held) := by
  rcases fillSlot_cases hopen t with ⟨held, hfull, hsame⟩ | ⟨_, hkeep⟩
  · exact ⟨held, by rw [hsame, hfull]⟩
  · refine ⟨(outcome c.strict t key).toOption, ?_⟩
    rw [hkeep, keep_slots, Index.get?_put, if_pos (BEq.refl key)]

theorem contains_fillSlot (other : Path) :
    (c.fillSlot t key).slots.contains other = c.slots.contains other := by
  rcases fillSlot_cases hopen t with ⟨held, _, hsame⟩ | ⟨hempty, hkeep⟩
  · rw [hsame]
  · rw [hkeep, keep_slots, Index.contains, Index.get?_put, Index.contains]
    cases hother : (key == other) with
    | false => rfl
    | true =>
        rw [← Index.get?_congr hother, hempty]
        rfl

theorem get?_fillSlot_of_full {other : Path} {held : Option SourceFile}
    (h : c.slots.get? other = some (some held)) :
    (c.fillSlot t key).slots.get? other = some (some held) := by
  rcases fillSlot_cases hopen t with ⟨_, _, hsame⟩ | ⟨hempty, hkeep⟩
  · rw [hsame, h]
  · rw [hkeep, keep_slots, Index.get?_put]
    cases hother : (key == other) with
    | false => exact h
    | true =>
        rw [← Index.get?_congr hother, hempty] at h
        cases h

end

/-!
# What a session keeps
-/

namespace Session

/-- The cache of the session holds the readings, it has a slot for each path that was asked for,
and the requests that are complete have what is in their slots. -/
structure Follows (strict : Bool) (readings : List (Path × FileTree)) (s : Session) : Prop where
  holds : Holds strict readings s.cache
  opened : forall key, s.cache.slots.contains key = true <->
    exists asked, asked ∈ s.requests.map Request.key ∧ (asked == key) = true
  answered : forall r answer, r ∈ s.requests -> r.answer = some answer ->
    s.cache.slots.get? r.key = some (some answer)

theorem follows_start (strict : Bool) (t : FileTree) : Follows strict [] (start strict t) where
  holds := holds_new strict
  opened key := by simp [start, new, Index.empty, Index.contains, Index.get?, Index.find]
  answered r answer h := by cases h

section

variable {strict : Bool} {readings : List (Path × FileTree)} {s : Session}
  (h : Follows strict readings s)
include h

theorem follows_ask (path : Path) : Follows strict readings (s.step (.ask path)) := by
  constructor
  · exact h.holds.openSlot _
  · intro key
    show (s.cache.openSlot (s.tree.absolute path)).slots.contains key = true <->
      exists asked, asked ∈ (s.requests ++ [Request.mk (s.tree.absolute path) none]).map
        Request.key ∧ (asked == key) = true
    rw [contains_openSlot, h.opened key, List.map_append]
    constructor
    · intro hopened
      rcases hopened with ⟨asked, hasked, hsame⟩ | hsame
      · exact ⟨asked, List.mem_append_left _ hasked, hsame⟩
      · exact ⟨_, List.mem_append_right _ List.mem_cons_self, hsame⟩
    · intro hopened
      rcases hopened with ⟨asked, hasked, hsame⟩
      rcases List.mem_append.mp hasked with hearlier | hlast
      · exact Or.inl ⟨asked, hearlier, hsame⟩
      · rw [List.mem_singleton.mp hlast] at hsame
        exact Or.inr hsame
  · intro r answer hr hanswer
    rcases List.mem_append.mp hr with hearlier | hlast
    · exact get?_openSlot_of_full (h.answered r answer hearlier hanswer) _
    · rw [List.mem_singleton.mp hlast] at hanswer
      cases hanswer

omit h in
theorem request_of_pending {number : Nat} {key : Path} (hpending : s.pending? number = some key) :
    s.requests[number]? = some ⟨key, none⟩ := by
  unfold pending? at hpending
  split at hpending
  · next found hrequest =>
      cases hpending
      exact hrequest
  · cases hpending

omit h in
theorem keys_finish {number : Nat} {key : Path} (hpending : s.pending? number = some key) :
    (s.finish number key).requests.map Request.key = s.requests.map Request.key := by
  have hkey : (s.requests.map Request.key)[number]? = some key := by
    rw [List.getElem?_map, request_of_pending hpending]
    rfl
  rcases List.getElem?_eq_some_iff.mp hkey with ⟨hlt, hget⟩
  show (s.requests.set number _).map Request.key = _
  rw [List.map_set, ← hget, List.set_getElem_self]

theorem contains_of_pending {number : Nat} {key : Path}
    (hpending : s.pending? number = some key) : s.cache.slots.contains key = true :=
  (h.opened key).mpr ⟨key,
    List.mem_map.mpr ⟨_, List.mem_of_getElem? (request_of_pending hpending), rfl⟩, BEq.refl key⟩

theorem holds_finish {number : Nat} {key : Path} (hpending : s.pending? number = some key) :
    Holds strict (readings ++ (if s.cache.awaits key then some (key, s.tree) else none).toList)
      (s.cache.fillSlot s.tree key) := by
  rcases fillSlot_cases (contains_of_pending h hpending) s.tree with
    ⟨held, hfull, hsame⟩ | ⟨hempty, hkeep⟩
  · have hawaits : s.cache.awaits key = false := by rw [awaits, hfull]
    rw [hsame, hawaits]
    simpa using h.holds
  · have hawaits : s.cache.awaits key = true := by rw [awaits, hempty]
    rw [hkeep, hawaits, h.holds.mode]
    exact h.holds.keep s.tree hempty

theorem follows_finish {number : Nat} {key : Path} (hpending : s.pending? number = some key) :
    Follows strict (readings ++ (if s.cache.awaits key then some (key, s.tree) else none).toList)
      (s.finish number key) := by
  have hopen := contains_of_pending h hpending
  constructor
  · exact holds_finish h hpending
  · intro other
    rw [keys_finish hpending, ← h.opened other]
    show (s.cache.fillSlot s.tree key).slots.contains other = true <-> _
    rw [contains_fillSlot hopen]
  · intro r answer hr hanswer
    rcases List.mem_or_eq_of_mem_set hr with hearlier | rfl
    · exact get?_fillSlot_of_full hopen s.tree (h.answered r answer hearlier hanswer)
    · rcases full_fillSlot hopen s.tree with ⟨held, hheld⟩
      have hsource : (s.cache.fillSlot s.tree key).source? key = held := by rw [source?, hheld]
      cases hanswer
      rw [hsource]
      exact hheld

theorem follows_step (e : Event) :
    Follows strict (readings ++ (s.reading? e).toList) (s.step e) := by
  cases e with
  | change t =>
      show Follows strict (readings ++ []) _
      rw [List.append_nil]
      exact ⟨h.holds, h.opened, h.answered⟩
  | ask path =>
      show Follows strict (readings ++ []) _
      rw [List.append_nil]
      exact follows_ask h path
  | complete number =>
      cases hpending : s.pending? number with
      | none =>
          simp only [reading?, step, hpending, Option.bind_none, Option.toList_none,
            List.append_nil]
          exact h
      | some key =>
          rw [step_complete hpending, reading?, hpending, Option.bind_some]
          exact follows_finish h hpending

theorem follows_after (events : List Event) :
    Follows strict (readings ++ s.readings events) (s.after events) := by
  induction events generalizing readings s with
  | nil =>
      rw [Session.readings, List.append_nil]
      exact h
  | cons e rest ih =>
      rw [Session.readings, ← List.append_assoc]
      exact ih (follows_step h e)

end

/-!
# Counting

Slots, readings and paths that were asked for are counted by what they name, and once no request
is under way they name the same.
-/

theorem length_eq_card {α : Type} (pathOf : α -> Path) {items : List α}
    (h : items.Pairwise fun x y => (pathOf x == pathOf y) = false) :
    items.length = (items.map fun x => (pathOf x).parts).toFinset.card := by
  have hnodup : (items.map fun x => (pathOf x).parts).Nodup := by
    refine List.pairwise_map.mpr (h.imp ?_)
    intro x y hapart hsame
    rw [Path.beq_iff_parts.mpr hsame] at hapart
    cases hapart
  rw [List.toFinset_card_of_nodup hnodup, List.length_map]

section

variable {strict : Bool} {readings : List (Path × FileTree)} {s : Session}
  (h : Follows strict readings s)
include h

theorem size_eq_card :
    s.cache.size = (s.requests.map fun r => r.key.parts).toFinset.card := by
  rw [size, Index.size, length_eq_card Prod.fst s.cache.slots.distinct]
  congr 1
  ext parts
  rw [List.mem_toFinset, List.mem_toFinset, List.mem_map, List.mem_map]
  constructor
  · intro hmem
    rcases hmem with ⟨⟨key, slot⟩, hslot, rfl⟩
    have hopen := Index.contains_iff.mpr ⟨key, slot, hslot, BEq.refl key⟩
    rcases (h.opened key).mp hopen with ⟨asked, hasked, hsame⟩
    rcases List.mem_map.mp hasked with ⟨r, hr, rfl⟩
    exact ⟨r, hr, Path.beq_iff_parts.mp hsame⟩
  · intro hmem
    rcases hmem with ⟨r, hr, rfl⟩
    have hopen := (h.opened r.key).mpr ⟨r.key, List.mem_map_of_mem hr, BEq.refl r.key⟩
    rcases Index.contains_iff.mp hopen with ⟨key, slot, hslot, hsame⟩
    exact ⟨(key, slot), hslot, Path.beq_iff_parts.mp hsame⟩

theorem reading_of_answer {r : Request} {answer : Option SourceFile} (hr : r ∈ s.requests)
    (hanswer : r.answer = some answer) :
    exists reading, reading ∈ readings ∧ (reading.1 == r.key) = true ∧
      answer = (resultOf strict reading).toOption :=
  (h.holds.full r.key answer).mp (h.answered r answer hr hanswer)

theorem parses_eq_card (hcomplete : forall r, r ∈ s.requests -> r.answer.isSome = true) :
    s.cache.parses = (s.requests.map fun r => r.key.parts).toFinset.card := by
  rw [h.holds.count, length_eq_card Prod.fst h.holds.once]
  congr 1
  ext parts
  rw [List.mem_toFinset, List.mem_toFinset, List.mem_map, List.mem_map]
  constructor
  · intro hmem
    rcases hmem with ⟨reading, hreading, rfl⟩
    have hfull := (h.holds.full reading.1 _).mpr ⟨reading, hreading, BEq.refl reading.1, rfl⟩
    have hopen : s.cache.slots.contains reading.1 = true := by
      rw [Index.contains, hfull]
      rfl
    rcases (h.opened reading.1).mp hopen with ⟨asked, hasked, hsame⟩
    rcases List.mem_map.mp hasked with ⟨r, hr, rfl⟩
    exact ⟨r, hr, Path.beq_iff_parts.mp hsame⟩
  · intro hmem
    rcases hmem with ⟨r, hr, rfl⟩
    rcases Option.isSome_iff_exists.mp (hcomplete r hr) with ⟨answer, hanswer⟩
    rcases reading_of_answer h hr hanswer with ⟨reading, hreading, hsame, -⟩
    exact ⟨reading, hreading, Path.beq_iff_parts.mp hsame⟩

theorem mem_failures_iff (path : Path) (message : String) :
    (path, message) ∈ s.cache.failures <->
      exists t, (path, t) ∈ readings ∧ outcome strict t path = .error message := by
  rw [mem_failures, h.holds.failed, List.mem_flatMap]
  constructor
  · intro hmem
    rcases hmem with ⟨⟨key, t⟩, hreading, hfailure⟩
    rcases mem_failureOf.mp hfailure with ⟨rfl, hresult⟩
    exact ⟨t, hreading, hresult⟩
  · intro hread
    rcases hread with ⟨t, hreading, hresult⟩
    exact ⟨(path, t), hreading, mem_failureOf.mpr ⟨rfl, hresult⟩⟩

end

/-- Whatever a run is made of, no two readings are of the same path; a request that is complete
has the result of the reading of its path; and counts and failures are those of the readings. -/
theorem files_are_read_once (strict : Bool) (t : FileTree) (events : List Event) :
    ((start strict t).readings events).Pairwise
      (fun first second => (first.1 == second.1) = false) ∧
    (forall r answer, r ∈ ((start strict t).after events).requests -> r.answer = some answer ->
      exists key tree, (key, tree) ∈ (start strict t).readings events ∧
        (key == r.key) = true ∧ answer = (outcome strict tree key).toOption) ∧
    (forall r r' answer answer', r ∈ ((start strict t).after events).requests ->
      r' ∈ ((start strict t).after events).requests -> (r.key == r'.key) = true ->
      r.answer = some answer -> r'.answer = some answer' -> answer = answer') ∧
    ((forall r, r ∈ ((start strict t).after events).requests -> r.answer.isSome = true) ->
      ((start strict t).after events).cache.parses = ((start strict t).after events).cache.size) ∧
    ((start strict t).after events).cache.size =
      (((start strict t).after events).requests.map fun r => r.key.parts).toFinset.card ∧
    ((start strict t).after events).cache.failures.Pairwise
      (fun first second => first.1.compare second.1 = .lt) ∧
    forall path message, (path, message) ∈ ((start strict t).after events).cache.failures <->
      exists tree, (path, tree) ∈ (start strict t).readings events ∧
        outcome strict tree path = .error message := by
  have h := follows_after (follows_start strict t) events
  rw [List.nil_append] at h
  refine ⟨h.holds.once, ?_, ?_, ?_, size_eq_card h, increasing_failures _, mem_failures_iff h⟩
  · intro r answer hr hanswer
    rcases reading_of_answer h hr hanswer with ⟨reading, hreading, hsame, hresult⟩
    exact ⟨reading.1, reading.2, hreading, hsame, hresult⟩
  · intro r r' answer answer' hr hr' hsame hanswer hanswer'
    have hslot := h.answered r answer hr hanswer
    rw [Index.get?_congr hsame, h.answered r' answer' hr' hanswer'] at hslot
    exact (Option.some.inj (Option.some.inj hslot)).symm
  · intro hcomplete
    rw [parses_eq_card h hcomplete, size_eq_card h]

end Session
end ParseCache
end JsxUsage
