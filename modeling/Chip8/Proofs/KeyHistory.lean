/-
  What a keypad remembers.

  Keys are set and toggled one by one, or all at once, and by numbers that may name no key.  However
  long this goes on, a key needs little to be known: what it was last set to, and how often it was
  toggled AFTER that.

  1. **Actions** — each is done as it stands or, if it is a list that does not name exactly sixteen
     keys, refused as a whole.  A refused action leaves the keypad as it is (`after`).

  2. **Assignments** — an action assigns a value to a key if it says what the key is to be, whatever
     it was before.  Toggling does not, for it depends on that (`Action.assigned?`).

  3. **The law** — a key that was last assigned `b`, or never and then `b` is up, is `b` turned over
     once for each toggle since (`isDown_after`).  One action at the end of a history either assigns
     the key anew, and then there are no toggles since, or it toggles the key, or it leaves it.
-/
import Chip8.Keypad
import Mathlib.Data.List.Induction

namespace Chip8.Keypad

/-! ## Actions -/

/-- What can be done to a keypad. -/
inductive Action where
  /-- Key `i` is put down or released. -/
  | set (i : Nat) (down : Bool)
  /-- Key `i` changes over. -/
  | toggle (i : Nat)
  /-- All keys at once. -/
  | setAll (keys : Array Bool)
  | releaseAll
  deriving DecidableEq

/-- The keypad after an action, unless that is refused. -/
def act? (p : Keypad) : Action → Option Keypad
  | .set i down => some (p.set i down)
  | .toggle i => some (p.toggle i)
  | .setAll keys => ofArray? keys
  | .releaseAll => some released

/-- The keypad after an action, refused or not. -/
def act (p : Keypad) (a : Action) : Keypad := (p.act? a).getD p

/-- The keypad after a history of actions. -/
def after (p : Keypad) (as : List Action) : Keypad := as.foldl act p

theorem after_concat (p : Keypad) (as : List Action) (a : Action) :
    p.after (as ++ [a]) = (p.after as).act a := List.foldl_append

/-- **Only a list of the wrong length is refused.** -/
theorem act?_eq_none_iff {p : Keypad} {a : Action} :
    p.act? a = none ↔ ∃ keys, a = .setAll keys ∧ keys.size ≠ 16 := by
  cases a with
  | setAll keys => simp [act?, ofArray?]
  | _ => simp [act?]

/-! ## Assignments -/

/-- What the action says that key `k` is to be, if it says so. -/
def Action.assigned? (k : Nat) : Action → Option Bool
  | set i down => if i = k then some down else none
  | toggle _ => none
  | setAll keys => if keys.size = 16 then keys[k]? else none
  | releaseAll => some false

/-- What key `k` was last assigned in a history; it is up if it never was. -/
def lastAssigned (k : Nat) (as : List Action) : Bool :=
  (as.filterMap (Action.assigned? k)).getLast?.getD false

/-- How often key `k` was toggled since. -/
def togglesSince (k : Nat) (as : List Action) : Nat :=
  (as.reverse.takeWhile fun a => (a.assigned? k).isNone).count (.toggle k)

/-- An action at the end that assigns the key is the last one to do so. -/
theorem lastAssigned_concat (k : Nat) (as : List Action) (a : Action) :
    lastAssigned k (as ++ [a]) = (a.assigned? k).getD (lastAssigned k as) := by
  rw [lastAssigned, List.filterMap_append]
  cases h : a.assigned? k with
  | none => simp [h, lastAssigned]
  | some b => simp [h]

/-- Behind an assignment no toggles are counted; else a toggle is one more. -/
theorem togglesSince_concat (k : Nat) (as : List Action) (a : Action) :
    togglesSince k (as ++ [a]) =
      if (a.assigned? k).isNone then togglesSince k as + (if a = .toggle k then 1 else 0)
      else 0 := by
  rw [togglesSince, List.reverse_concat, List.takeWhile_cons]
  split
  · rw [List.count_cons, togglesSince]
    simp only [beq_iff_eq]
  · rfl

/-! ## The law -/

/-- **One action, seen at one key.** -/
theorem isDown_act (p : Keypad) (a : Action) {k : Nat} (hk : k < 16) :
    (p.act a).isDown k =
      match a.assigned? k with
      | some b => b
      | none => p.isDown k ^^ decide (a = .toggle k) := by
  cases a with
  | set i down =>
    simp only [act, act?, Option.getD_some, isDown_set, Action.assigned?]
    by_cases hi : i = k
    · simp [hi, hk]
    · simp [hi]
  | toggle i =>
    simp only [act, act?, Option.getD_some, isDown_toggle, Action.assigned?]
    by_cases hi : i = k
    · simp [hi, hk]
    · simp [hi]
  | setAll keys =>
    cases hpad : ofArray? keys with
    | none =>
      have hsize : keys.size ≠ 16 := by simpa [ofArray?] using hpad
      simp [act, act?, hpad, hsize, Action.assigned?]
    | some pad =>
      -- accepted, so every key is in the list
      obtain ⟨hsize, hdown⟩ := isDown_ofArray? hpad k
      have hin : keys[k]? = some keys[k] := Array.getElem?_eq_getElem (by omega)
      simp [act, act?, hpad, hdown, hsize, Action.assigned?, hin]
  | releaseAll => exact isDown_released k

/-- One more turns a number from even to odd, or from odd to even. -/
theorem decide_odd_succ (n : Nat) : decide ((n + 1) % 2 = 1) = !decide (n % 2 = 1) := by
  rw [← decide_not]
  exact decide_eq_decide.2 (by omega)

/-- **The law of a key.**  Induction on the history, from its end: one more action. -/
theorem isDown_after (as : List Action) {k : Nat} (hk : k < 16) :
    (released.after as).isDown k =
      (lastAssigned k as ^^ decide (togglesSince k as % 2 = 1)) := by
  induction as using List.reverseRecOn with
  | nil => exact isDown_released k
  | append_singleton as a ih =>
    rw [after_concat, isDown_act _ _ hk, lastAssigned_concat, togglesSince_concat]
    cases hassigned : a.assigned? k with
    | some b => simp
    | none =>
      by_cases htoggle : a = .toggle k
      · simp [ih, htoggle, decide_odd_succ]
      · simp [ih, htoggle]

/-- **A keypad is known by its history.**  Do anything to a new keypad, with any numbers of keys and
    lists of any length.  Then each of the sixteen keys is what it was last assigned, by setting it,
    by an accepted list or by releasing all keys, and up if it never was; turned over if it was
    toggled an odd number of times since.  So says asking for the key, and so says the list of all
    keys.  A number past fifteen is never down.  Lists of another length than sixteen are refused,
    at any time, and nothing else is. -/
theorem keys_follow_history (as : List Action) :
    let now := released.after as
    (∀ k : Fin 16,
      let v := lastAssigned k as ^^ decide (togglesSince k as % 2 = 1)
      now.isDown k = v ∧ now.keys[k] = v) ∧
    (∀ k, 16 ≤ k → now.isDown k = false) ∧
    ∀ a, now.act? a = none ↔ ∃ keys, a = .setAll keys ∧ keys.size ≠ 16 := by
  intro now
  refine ⟨?_, fun k hk => isDown_of_le hk, fun a => act?_eq_none_iff⟩
  intro k v
  have hdown : now.isDown k = v := isDown_after as k.isLt
  have hlisted : now.isDown k = now.keys[k] := by
    rw [isDown, Fin.getElem_fin, Vector.getElem?_eq_getElem k.isLt, Option.getD_some]
  exact ⟨hdown, hlisted ▸ hdown⟩

/-- Key 3 is put down and toggled twice, with a list of fifteen keys refused in between; key 5 is
    toggled once, and numbers that name no key are set and toggled too. -/
theorem keys_follow_history_of_nine :
    let as : List Action :=
      [.setAll (Array.replicate 16 true), .releaseAll, .set 3 true, .toggle 3,
        .setAll (Array.replicate 15 false), .toggle 3, .toggle 20, .set 17 true, .toggle 5]
    let now := released.after as
    now.keys[3] = true ∧ now.keys[5] = true ∧ now.keys[4] = false ∧
    now.isDown 17 = false ∧ now.isDown 20 = false ∧
    now.act? (.setAll (Array.replicate 15 false)) = none := by
  intro as now
  obtain ⟨hkeys, hpast, hrefused⟩ := keys_follow_history as
  refine ⟨?_, ?_, ?_, hpast 17 (by decide), hpast 20 (by decide), ?_⟩
  · exact (hkeys 3).2.trans (by decide)
  · exact (hkeys 5).2.trans (by decide)
  · exact (hkeys 4).2.trans (by decide)
  · exact (hrefused _).2 ⟨_, rfl, by decide⟩

end Chip8.Keypad
