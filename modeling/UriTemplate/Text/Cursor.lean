import UriTemplate.Text.CodePoint

/-!
A place in a text: how many code points lie behind, and the text that lies ahead.
-/

namespace UriTemplate

/-- A position and what follows it. -/
structure Cursor where
  pos : Nat
  rest : Text
  deriving DecidableEq, Repr

namespace Cursor

/-- The place at a position of a text. Past its end nothing lies ahead. -/
def seek (s : Text) (pos : Nat) : Cursor := ⟨pos, s.drop pos⟩

/-- The place where a text begins. -/
def start (s : Text) : Cursor := ⟨0, s⟩

/-- The place after a given character, if it is the next one. -/
def after? (c : CodePoint) : Cursor → Option Cursor
  | ⟨i, d :: r⟩ => if d = c then some ⟨i + 1, r⟩ else none
  | ⟨_, []⟩ => none

theorem length_after? {c : CodePoint} {k k' : Cursor} (h : k.after? c = some k') :
    k'.rest.length < k.rest.length := by
  unfold after? at h
  split at h
  · split at h
    · cases h; simp
    · cases h
  · cases h

end Cursor

end UriTemplate
