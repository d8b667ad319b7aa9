import JsxUsage.Text.Reading

/-!
# Marks of a text

A mark names a place of a text by the characters before it and by its line.  A reading
takes marks from the points that it comes to, so both always fit the same text, also where
it is stuck.  On marks of one text the order of the lines is that of the offsets.

`Meets` says what a reading does from points of the text on: it ends at a point of the
text, with a value that fits the line of its end, or is stuck at a mark of the text.
-/

namespace JsxUsage
namespace Text

variable {text : List Char}

/-- The line that is reached after `offset` characters. -/
def lineAt (text : List Char) (offset : Nat) : Nat :=
  1 + (text.take offset).count '\n'

theorem lineAt_mono {a b : Nat} (h : a ≤ b) : lineAt text a ≤ lineAt text b := by
  have hsublist : (text.take a).Sublist (text.take b) := List.take_sublist_take_left h
  exact Nat.add_le_add_left (hsublist.count_le '\n') 1

namespace Mark

/-- The line of the mark is that of its offset in the text. -/
def On (text : List Char) (m : Mark) : Prop :=
  m.line = lineAt text m.offset

theorem line_le {a b : Mark} (ha : a.On text) (hb : b.On text) (h : a.offset ≤ b.offset) :
    a.line ≤ b.line := by
  rw [ha, hb]
  exact lineAt_mono h

theorem on_later {a b : Mark} (ha : a.On text) (hb : b.On text) : (a.later b).On text := by
  unfold later
  split
  · exact hb
  · exact ha

theorem offset_le_later (a b : Mark) : b.offset ≤ (a.later b).offset := by
  unfold later
  split
  · exact Nat.le_refl _
  · exact Nat.le_of_not_lt ‹_›

end Mark

namespace Point

/-- The point lies on the text, and so does the deepest mark that it remembers. -/
structure On (text : List Char) (p : Point) : Prop where
  rest : p.rest = text.drop p.offset
  mark : p.mark.On text
  deepest : p.deepest.On text

theorem on_first (text : List Char) : (first text).On text := by
  constructor
  · rfl
  · rfl
  · rfl

theorem on_note {p : Point} {m : Mark} (hp : p.On text) (hm : m.On text) : (p.note m).On text :=
  ⟨hp.rest, hp.mark, Mark.on_later hp.deepest hm⟩

theorem on_step {p : Point} {c : Char} {rest : List Char} (hp : p.On text)
    (hrest : p.rest = c :: rest) :
    Point.On text { p with
      rest := rest
      offset := p.offset + 1
      line := if c == '\n' then p.line + 1 else p.line } := by
  have hdrop : text.drop p.offset = c :: rest := hp.rest.symm.trans hrest
  have hhead : text[p.offset]? = some c := by
    rw [← List.head?_drop, hdrop]
    rfl
  constructor
  · show rest = text.drop (p.offset + 1)
    rw [← List.tail_drop, hdrop]
    rfl
  · show (if c == '\n' then p.line + 1 else p.line) = lineAt text (p.offset + 1)
    have hline : p.line = lineAt text p.offset := hp.mark
    rw [lineAt, List.take_add_one, hhead, List.count_append, hline, lineAt, Option.toList_some,
      List.count_singleton]
    split <;> omega
  · exact hp.deepest

theorem on_drop {p : Point} (hp : p.On text) (n : Nat) :
    (p.drop n).On text ∧ p.line ≤ (p.drop n).line := by
  induction n generalizing p with
  | zero => exact ⟨hp, Nat.le_refl _⟩
  | succ n ih =>
      unfold drop
      cases hrest : p.rest with
      | nil => exact ⟨hp, Nat.le_refl _⟩
      | cons c rest =>
          rcases ih (on_step hp hrest) with ⟨hon, hle⟩
          refine ⟨hon, Nat.le_trans ?_ hle⟩
          show p.line ≤ if c == '\n' then p.line + 1 else p.line
          split
          · exact Nat.le_succ _
          · exact Nat.le_refl _

end Point

/-!
# What a reading does
-/

section

variable {α β : Type}

/-- The reading ended at a point of the text, with a value that fits the line there, or was
stuck at a mark of the text. -/
def Reply.Meets (text : List Char) (post : α -> Nat -> Prop) : Reply α -> Prop
  | .done a next => next.On text ∧ post a next.line
  | .stuck m => m.On text

namespace Reading

theorem bind_of_done {r : Reading α} {f : α -> Reading β} {p next : Point} {a : α}
    (h : r p = .done a next) : (r >>= f) p = f a next := by
  simp only [bind, h]

theorem bind_of_stuck {r : Reading α} {f : α -> Reading β} {p : Point} {m : Mark}
    (h : r p = .stuck m) : (r >>= f) p = .stuck m := by
  simp only [bind, h]

theorem orElse_of_done {r s : Reading α} {p next : Point} {a : α} (h : r p = .done a next) :
    (r <|> s) p = .done a next := by
  show either r (fun _ => s) p = .done a next
  simp only [either, h]

theorem orElse_of_stuck {r s : Reading α} {p : Point} {m : Mark} (h : r p = .stuck m) :
    (r <|> s) p = s (p.note m) := by
  show either r (fun _ => s) p = s (p.note m)
  simp only [either, h]

/-- From every point of the text whose line fits, the reading ends as `post` says. -/
def Meets (text : List Char) (pre : Nat -> Prop) (r : Reading α) (post : α -> Nat -> Prop) :
    Prop :=
  forall p, p.On text -> pre p.line -> (r p).Meets text post

variable {pre : Nat -> Prop} {post : α -> Nat -> Prop}

theorem meets_pure {a : α} (h : forall line, pre line -> post a line) :
    Meets text pre (pure a : Reading α) post := by
  intro p hp hpre
  exact ⟨hp, h p.line hpre⟩

theorem meets_bind {r : Reading α} {f : α -> Reading β} {goal : β -> Nat -> Prop}
    (hr : Meets text pre r post) (hf : forall a, Meets text (post a) (f a) goal) :
    Meets text pre (r >>= f) goal := by
  intro p hp hpre
  have hreply := hr p hp hpre
  cases hrun : r p with
  | done a next =>
      rw [hrun] at hreply
      rw [bind_of_done hrun]
      exact hf a next hreply.left hreply.right
  | stuck m =>
      rw [hrun] at hreply
      rw [bind_of_stuck hrun]
      exact hreply

theorem meets_fail : Meets text pre (fail : Reading α) post := by
  intro p hp _
  exact Mark.on_later hp.deepest hp.mark

theorem meets_orElse {r s : Reading α} (hr : Meets text pre r post) (hs : Meets text pre s post) :
    Meets text pre (r <|> s) post := by
  intro p hp hpre
  have hreply := hr p hp hpre
  cases hrun : r p with
  | done a next =>
      rw [hrun] at hreply
      rw [orElse_of_done hrun]
      exact hreply
  | stuck m =>
      rw [hrun] at hreply
      rw [orElse_of_stuck hrun]
      exact hs (p.note m) (Point.on_note hp hreply) hpre

theorem meets_imp {r : Reading α} {pre' : Nat -> Prop} {post' : α -> Nat -> Prop}
    (hr : Meets text pre r post) (hpre : forall line, pre' line -> pre line)
    (hpost : forall a line, post a line -> post' a line) : Meets text pre' r post' := by
  intro p hp hline
  have hreply := hr p hp (hpre p.line hline)
  cases hrun : r p with
  | done a next =>
      rw [hrun] at hreply
      exact ⟨hreply.left, hpost a next.line hreply.right⟩
  | stuck m =>
      rw [hrun] at hreply
      exact hreply

/-- A loop keeps what each of its rounds keeps, for the values read so far. -/
theorem meets_manyUpTo {r : Reading α} {kept : List α -> Nat -> Prop}
    (hr : forall as, Meets text (kept as) r fun a => kept (as ++ [a])) (budget : Nat) (as : List α) :
    Meets text (kept as) (manyUpTo r budget) fun more => kept (as ++ more) := by
  induction budget generalizing as with
  | zero =>
      apply meets_pure
      intro line hline
      rwa [List.append_nil]
  | succ budget ih =>
      intro p hp hpre
      have hnone : kept (as ++ []) p.line := by rwa [List.append_nil]
      have hreply := hr as p hp hpre
      cases hrun : r p with
      | stuck m =>
          rw [hrun] at hreply
          simp only [manyUpTo, hrun]
          exact ⟨Point.on_note hp hreply, hnone⟩
      | done a next =>
          rw [hrun] at hreply
          have hmore := ih (as ++ [a]) next hreply.left hreply.right
          simp only [manyUpTo, hrun]
          split
          · exact ⟨hp, hnone⟩
          · cases hlast : manyUpTo r budget next with
            | done more last =>
                rw [hlast] at hmore
                have hkept : kept (as ++ [a] ++ more) last.line := hmore.right
                rw [List.append_assoc] at hkept
                exact ⟨hmore.left, hkept⟩
            | stuck m =>
                rw [hlast] at hmore
                exact hmore

theorem meets_many {r : Reading α} {kept : List α -> Nat -> Prop}
    (hr : forall as, Meets text (kept as) r fun a => kept (as ++ [a])) :
    Meets text (kept []) (many r) kept := by
  intro p hp hpre
  exact meets_manyUpTo hr p.bound [] p hp hpre

end Reading
end
end Text
end JsxUsage
