import JsxUsage.ParseCache
import JsxUsage.Proofs.PathOrder
import JsxUsage.Proofs.Registration

/-!
# What the parse cache holds

While the file tree stays as it is, asking for a file either leaves the cache as
it was or adds one full slot.  So after any number of requests there is one slot
for each file that was asked for, and it holds what reading the file gives.
-/

namespace JsxUsage

namespace ParseCache

/-!
# One slot

The slot of a path is opened and filled in two steps.  Whatever reading gives, filling puts
its file into the slot; only the messages depend on which of the two results it was.
-/

theorem keep_slots (c : ParseCache) (key : Path) (result : LoadResult) :
    (c.keep key result).slots = c.slots.put key (some result.toOption) := by
  cases result with
  | error message => rfl
  | ok file => rfl

theorem keep_strict (c : ParseCache) (key : Path) (result : LoadResult) :
    (c.keep key result).strict = c.strict := by
  cases result with
  | error message => rfl
  | ok file => rfl

theorem keep_parses (c : ParseCache) (key : Path) (result : LoadResult) :
    (c.keep key result).parses = c.parses + 1 := by
  cases result with
  | error message => rfl
  | ok file => rfl

/-- What a result adds to the failures. -/
def failureOf (key : Path) : LoadResult -> List (Path × String)
  | .ok _ => []
  | .error message => [(key, message)]

theorem mem_failureOf {key path : Path} {result : LoadResult} {message : String} :
    (path, message) ∈ failureOf key result <-> path = key ∧ result = .error message := by
  cases result with
  | error other =>
      simp only [failureOf, List.mem_singleton, Prod.mk.injEq, Except.error.injEq]
      exact and_congr_right fun _ => eq_comm
  | ok file => simp [failureOf]

theorem keep_failed {c : ParseCache} {key : Path} (result : LoadResult)
    (hnew : forall pair, pair ∈ c.failed.pairs -> (pair.1 == key) = false) :
    (c.keep key result).failed.pairs = c.failed.pairs ++ failureOf key result := by
  cases result with
  | error message => exact Index.set_of_new message hnew
  | ok file => exact (List.append_nil _).symm

theorem openSlot_of_contains {c : ParseCache} {key : Path} (h : c.slots.contains key = true) :
    c.openSlot key = c := by
  rw [openSlot, if_pos h]

theorem openSlot_of_new {c : ParseCache} {key : Path} (h : c.slots.contains key = false) :
    c.openSlot key = { c with slots := c.slots.put key none } := by
  rw [openSlot, if_neg (by simp [h])]

theorem fillSlot_of_empty {c : ParseCache} {t : FileTree} {key : Path}
    (h : c.slots.get? key = some none) : c.fillSlot t key = c.keep key (outcome c.strict t key) := by
  rw [fillSlot, h]

theorem fillSlot_of_full {c : ParseCache} {t : FileTree} {key : Path} {held : Option SourceFile}
    (h : c.slots.get? key = some (some held)) : c.fillSlot t key = c := by
  rw [fillSlot, h]

/-!
# One request
-/

/-- Every slot holds what reading its file gives. -/
def Settled (t : FileTree) (c : ParseCache) : Prop :=
  forall key slot, (key, slot) ∈ c.slots.pairs -> slot = some (outcome c.strict t key).toOption

theorem get_of_contains {t : FileTree} {c : ParseCache} (hsettled : Settled t c) {path : Path}
    (hheld : c.slots.contains (t.absolute path) = true) : (c.get t path).1 = c := by
  rcases Option.isSome_iff_exists.mp hheld with ⟨slot, hslot⟩
  rcases Index.mem_of_find hslot with ⟨key, hmem, -⟩
  have hfull := hsettled key slot hmem
  rw [hfull] at hslot
  show (c.openSlot (t.absolute path)).fillSlot t (t.absolute path) = c
  rw [openSlot_of_contains hheld]
  exact fillSlot_of_full hslot

theorem get_of_new {t : FileTree} {c : ParseCache} {path : Path}
    (hnew : c.slots.contains (t.absolute path) = false) :
    (c.get t path).1 = ({ c with slots := c.slots.put (t.absolute path) none } : ParseCache).keep
      (t.absolute path) (outcome c.strict t (t.absolute path)) := by
  show (c.openSlot (t.absolute path)).fillSlot t (t.absolute path) = _
  rw [openSlot_of_new hnew]
  refine fillSlot_of_empty ?_
  rw [Index.get?_put, if_pos (BEq.refl (t.absolute path))]

theorem slots_get_of_new {t : FileTree} {c : ParseCache} {path : Path}
    (hnew : c.slots.contains (t.absolute path) = false) :
    (c.get t path).1.slots.pairs = c.slots.pairs ++
      [(t.absolute path, some (outcome c.strict t (t.absolute path)).toOption)] := by
  rw [get_of_new hnew, keep_slots]
  generalize t.absolute path = key at hnew
  show Index.set key _ (Index.set key none c.slots.pairs) = _
  rw [Index.set_set]
  refine Index.set_of_new _ ?_
  intro pair hpair
  rw [Bool.eq_false_iff]
  intro hsame
  rw [Index.contains_iff.mpr ⟨pair.1, pair.2, hpair, hsame⟩] at hnew
  cases hnew

/-- The cache after the files `paths` were asked for, by itself or among others. -/
structure Answers (t : FileTree) (strict : Bool) (paths : List Path) (c : ParseCache) : Prop where
  mode : c.strict = strict
  settled : Settled t c
  asked : forall key slot, (key, slot) ∈ c.slots.pairs ->
    exists path, path ∈ paths ∧ key = t.absolute path
  held : forall path, path ∈ paths -> c.slots.contains (t.absolute path) = true
  failed : forall key message, (key, message) ∈ c.failed.pairs <->
    (exists slot, (key, slot) ∈ c.slots.pairs) ∧ outcome strict t key = .error message

theorem answers_new (t : FileTree) (strict : Bool) : Answers t strict [] (new strict) where
  mode := rfl
  settled _ _ h := by cases h
  asked _ _ h := by cases h
  held _ h := by cases h
  failed key message := by simp [new, Index.empty]

theorem failed_get_of_new {t : FileTree} {strict : Bool} {paths : List Path} {c : ParseCache}
    (h : Answers t strict paths c) {path : Path}
    (hnew : c.slots.contains (t.absolute path) = false) :
    (c.get t path).1.failed.pairs = c.failed.pairs ++
      failureOf (t.absolute path) (outcome c.strict t (t.absolute path)) := by
  rw [get_of_new hnew]
  refine keep_failed _ ?_
  intro pair hpair
  rw [Bool.eq_false_iff]
  intro hsame
  rcases ((h.failed pair.1 pair.2).mp hpair).1 with ⟨slot, hslot⟩
  rw [Index.contains_iff.mpr ⟨pair.1, slot, hslot, hsame⟩] at hnew
  cases hnew

theorem answers_get {t : FileTree} {strict : Bool} {paths : List Path} {c : ParseCache}
    (h : Answers t strict paths c) (path : Path) :
    Answers t strict (paths ++ [path]) (c.get t path).1 := by
  cases hheld : c.slots.contains (t.absolute path) with
  | true =>
      rw [get_of_contains h.settled hheld]
      refine ⟨h.mode, h.settled, ?_, ?_, h.failed⟩
      · intro key slot hslot
        rcases h.asked key slot hslot with ⟨p, hp, hkey⟩
        exact ⟨p, List.mem_append_left [path] hp, hkey⟩
      · intro p hp
        rcases List.mem_append.mp hp with hearlier | hlast
        · exact h.held p hearlier
        · rw [List.mem_singleton.mp hlast]
          exact hheld
  | false =>
      have hmode : (c.get t path).1.strict = c.strict := by
        rw [get_of_new hheld, keep_strict]
      have hpairs := slots_get_of_new hheld
      refine ⟨hmode.trans h.mode, ?_, ?_, ?_, ?_⟩
      · intro key slot hslot
        rw [hmode]
        rw [hpairs] at hslot
        rcases List.mem_append.mp hslot with hearlier | hlast
        · exact h.settled key slot hearlier
        · cases List.mem_singleton.mp hlast
          rfl
      · intro key slot hslot
        rw [hpairs] at hslot
        rcases List.mem_append.mp hslot with hearlier | hlast
        · rcases h.asked key slot hearlier with ⟨p, hp, hkey⟩
          exact ⟨p, List.mem_append_left [path] hp, hkey⟩
        · cases List.mem_singleton.mp hlast
          exact ⟨path, List.mem_append_right paths List.mem_cons_self, rfl⟩
      · intro p hp
        rw [Index.contains_iff, hpairs]
        rcases List.mem_append.mp hp with hearlier | hlast
        · rcases Index.contains_iff.mp (h.held p hearlier) with ⟨k, v, hmem, hsame⟩
          exact ⟨k, v, List.mem_append_left _ hmem, hsame⟩
        · rw [List.mem_singleton.mp hlast]
          exact ⟨_, _, List.mem_append_right _ List.mem_cons_self, BEq.refl _⟩
      · intro key message
        rw [failed_get_of_new h hheld, hpairs, List.mem_append, h.failed, mem_failureOf, h.mode]
        simp only [List.mem_append, List.mem_singleton, Prod.mk.injEq, exists_or, exists_and_left,
          exists_eq, and_true, or_and_right]
        exact or_congr_right (and_congr_right fun hkey => by rw [hkey])

theorem answers_getAll {t : FileTree} {strict : Bool} {earlier : List Path} {c : ParseCache}
    (h : Answers t strict earlier c) (paths : List Path) :
    Answers t strict (earlier ++ paths) (c.getAll t paths) := by
  induction paths generalizing earlier c with
  | nil =>
      rw [List.append_nil]
      exact h
  | cons path paths ih =>
      have hall := ih (answers_get h path)
      rwa [List.append_assoc] at hall

theorem getAll_append (c : ParseCache) (t : FileTree) (paths more : List Path) :
    c.getAll t (paths ++ more) = (c.getAll t paths).getAll t more :=
  List.foldl_append

/-- Asking again changes nothing. -/
theorem getAll_of_held {t : FileTree} {strict : Bool} {earlier : List Path} {c : ParseCache}
    (h : Answers t strict earlier c) {paths : List Path}
    (hpaths : forall path, path ∈ paths -> path ∈ earlier) : c.getAll t paths = c := by
  induction paths with
  | nil => rfl
  | cons path paths ih =>
      have hfirst := get_of_contains h.settled (h.held path (hpaths path List.mem_cons_self))
      show (c.get t path).1.getAll t paths = c
      rw [hfirst]
      exact ih fun p hp => hpaths p (List.mem_cons_of_mem path hp)

/-!
# Failures
-/

theorem mem_failures {c : ParseCache} {path : Path} {message : String} :
    (path, message) ∈ c.failures <-> (path, message) ∈ c.failed.pairs :=
  List.mem_mergeSort

theorem increasing_failures (c : ParseCache) :
    c.failures.Pairwise fun first second => first.1.compare second.1 = .lt :=
  Path.increasing_mergeSort Prod.fst c.failed.distinct

/-- If the files are absolute and different, those that failed are the ones whose
reading fails. -/
theorem mem_failures_of_answers {t : FileTree} {strict : Bool} {paths : List Path} {c : ParseCache}
    (h : Answers t strict paths c)
    (habsolute : forall path, path ∈ paths -> path.isAbsolute = true)
    (hdistinct : forall p q, p ∈ paths -> q ∈ paths -> (p == q) = true -> p = q)
    {path : Path} {message : String} :
    (path, message) ∈ c.failures <->
      path ∈ paths ∧ outcome strict t path = .error message := by
  have hself : forall p, p ∈ paths -> t.absolute p = p := by
    intro p hp
    rw [FileTree.absolute, if_pos (habsolute p hp)]
  rw [mem_failures, h.failed]
  refine and_congr_left fun _ => ?_
  constructor
  · intro hslot
    rcases hslot with ⟨slot, hmem⟩
    rcases h.asked path slot hmem with ⟨p, hp, hkey⟩
    rw [hself p hp] at hkey
    rwa [hkey]
  · intro hpath
    have hheld := h.held path hpath
    rw [hself path hpath] at hheld
    rcases Index.contains_iff.mp hheld with ⟨key, slot, hmem, hsame⟩
    rcases h.asked key slot hmem with ⟨p, hp, hkey⟩
    rw [hself p hp] at hkey
    subst hkey
    rw [← hdistinct key path hp hpath hsame]
    exact ⟨slot, hmem⟩

end ParseCache
end JsxUsage
