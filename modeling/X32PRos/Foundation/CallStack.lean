import X32PRos.Foundation.Bytes

/-!
A stack that grows towards lower addresses of a byte memory, in slots of four
bytes. What lies on it is a list with the top first; a push and a pop act on the
list, and what a routine does between two of them below the top is no matter.
-/

namespace Foundation

namespace Memory

def load16 (m : Memory) (a : Nat) : Nat := (m a).toNat + 2 ^ 8 * (m (a + 1)).toNat

def store16 (m : Memory) (a v : Nat) : Memory :=
  (m.store8 a (UInt8.ofNat v)).store8 (a + 1) (UInt8.ofNat (v / 2 ^ 8))

theorem load16_eq (m : Memory) (a : Nat) : m.load16 a = m.load32 a % 2 ^ 16 := by
  have h₀ := (m a).toNat_lt
  have h₁ := (m (a + 1)).toNat_lt
  unfold load16 load32
  omega

theorem store16_of_outside {m : Memory} {a v x : Nat} (h : x < a ∨ a + 2 ≤ x) :
    m.store16 a v x = m x := by
  rw [store16, store8_of_ne (by omega), store8_of_ne (by omega)]

theorem load16_store16_self {m : Memory} {a v : Nat} (hv : v < 2 ^ 16) :
    (m.store16 a v).load16 a = v := by
  have h₀ : (m.store16 a v a).toNat = v % 2 ^ 8 := by
    rw [store16, store8_of_ne (Nat.ne_of_lt (Nat.lt_succ_self a)), store8, if_pos rfl,
      UInt8.toNat_ofNat']
  have h₁ : (m.store16 a v (a + 1)).toNat = v / 2 ^ 8 % 2 ^ 8 := by
    rw [store16, store8, if_pos rfl, UInt8.toNat_ofNat']
  rw [load16, h₀, h₁]
  omega

end Memory

/-- What a slot holds: a word, or a 16-bit value below an upper half that may be
anything. -/
inductive StackItem
  | word (v : UInt32)
  | half (v : UInt16)

namespace StackItem

def At (m : Memory) (a : Nat) : StackItem → Prop
  | word v => m.load32 a = v.toNat
  | half v => m.load16 a = v.toNat

theorem At.congr {m m' : Memory} {a : Nat} {item : StackItem} (h : item.At m a)
    (hsame : ∀ x, a ≤ x → x < a + 4 → m' x = m x) : item.At m' a := by
  have hword : m'.load32 a = m.load32 a := Memory.load32_congr hsame
  cases item with
  | word v => exact hword.trans h
  | half v =>
      change m'.load16 a = v.toNat
      rw [Memory.load16_eq, hword, ← Memory.load16_eq]
      exact h

end StackItem

def Memory.Holds (m : Memory) : Nat → List StackItem → Prop
  | _, [] => True
  | sp, item :: items => item.At m sp ∧ m.Holds (sp + 4) items

theorem Memory.Holds.congr {m m' : Memory} {items : List StackItem} {sp : Nat}
    (h : m.Holds sp items) (hsame : ∀ x, sp ≤ x → x < sp + 4 * items.length → m' x = m x) :
    m'.Holds sp items := by
  induction items generalizing sp with
  | nil => exact trivial
  | cons item items ih =>
      rw [List.length_cons] at hsame
      constructor
      · apply h.1.congr
        intro x hlow hhigh
        apply hsame x hlow
        omega
      · apply ih h.2
        intro x hlow hhigh
        apply hsame x <;> omega

/-- `items` were pushed on a stack that began at `top`, in memory that agrees with
`m₀` outside the bytes from `low` up to `top`. -/
structure OnStack (low top : Nat) (m₀ m : Memory) (sp : Nat) (items : List StackItem) : Prop where
  count : sp + 4 * items.length = top
  room : low ≤ sp
  holds : m.Holds sp items
  kept : ∀ x, x < low ∨ top ≤ x → m x = m₀ x

namespace OnStack

variable {low top sp : Nat} {m₀ m : Memory} {item : StackItem} {items : List StackItem}

theorem empty (h : low ≤ top) : OnStack low top m₀ m₀ top [] := by
  constructor
  · exact Nat.add_zero top
  · exact h
  · exact trivial
  · intro x _
    rfl

/-- Whatever a push stores in the new slot and nowhere else. -/
theorem push (h : OnStack low top m₀ m sp items) (hroom : low + 4 ≤ sp) {m' : Memory}
    (hitem : item.At m' (sp - 4)) (houtside : ∀ x, x < sp - 4 ∨ sp ≤ x → m' x = m x) :
    OnStack low top m₀ m' (sp - 4) (item :: items) := by
  have hback : sp - 4 + 4 = sp := Nat.sub_add_cancel (by omega)
  have hcount := h.count
  constructor
  · rw [List.length_cons]
    omega
  · omega
  · constructor
    · exact hitem
    · rw [hback]
      apply h.holds.congr
      intro x hx _
      exact houtside x (Or.inr hx)
  · intro x hx
    rw [houtside x (by omega)]
    exact h.kept x hx

theorem push_word (h : OnStack low top m₀ m sp items) (hroom : low + 4 ≤ sp) (v : UInt32) :
    OnStack low top m₀ (m.store32 (sp - 4) v.toNat) (sp - 4) (.word v :: items) := by
  apply h.push hroom
  · exact Memory.load32_store32_self v.toNat_lt
  · intro x hx
    exact Memory.store32_of_outside (by omega)

theorem push_half (h : OnStack low top m₀ m sp items) (hroom : low + 4 ≤ sp) (v : UInt16) :
    OnStack low top m₀ (m.store16 (sp - 4) v.toNat) (sp - 4) (.half v :: items) := by
  apply h.push hroom
  · exact Memory.load16_store16_self v.toNat_lt
  · intro x hx
    exact Memory.store16_of_outside (by omega)

/-- A 16-bit value pushed with zeros above it. -/
theorem push_extended (h : OnStack low top m₀ m sp items) (hroom : low + 4 ≤ sp) (v : UInt16) :
    OnStack low top m₀ (m.store32 (sp - 4) v.toNat) (sp - 4) (.half v :: items) := by
  have hlt : v.toNat < 2 ^ 16 := v.toNat_lt
  apply h.push hroom
  · change Memory.load16 _ _ = v.toNat
    rw [Memory.load16_eq, Memory.load32_store32_self (Nat.lt_of_lt_of_le hlt (by decide)),
      Nat.mod_eq_of_lt hlt]
  · intro x hx
    exact Memory.store32_of_outside (by omega)

theorem pop (h : OnStack low top m₀ m sp (item :: items)) :
    OnStack low top m₀ m (sp + 4) items := by
  have hcount := h.count
  rw [List.length_cons] at hcount
  constructor
  · omega
  · exact Nat.le_trans h.room (Nat.le_add_right sp 4)
  · exact h.holds.2
  · exact h.kept

/-- Several pops at once. -/
theorem discard {front : List StackItem} (h : OnStack low top m₀ m sp (front ++ items)) :
    OnStack low top m₀ m (sp + 4 * front.length) items := by
  induction front generalizing sp with
  | nil => exact h
  | cons item front ih =>
      have hback : sp + 4 * (front.length + 1) = sp + 4 + 4 * front.length := by omega
      rw [List.length_cons, hback]
      exact ih h.pop

theorem item_at (h : OnStack low top m₀ m sp items) {i : Nat} (hi : items[i]? = some item) :
    item.At m (sp + 4 * i) := by
  induction items generalizing sp i with
  | nil => cases hi
  | cons first items ih =>
      cases i with
      | zero =>
          cases hi
          exact h.holds.1
      | succ i =>
          have hnext : sp + 4 * (i + 1) = sp + 4 + 4 * i := by omega
          rw [hnext]
          exact ih h.pop hi

theorem top_word {v : UInt32} (h : OnStack low top m₀ m sp (.word v :: items)) :
    m.load32 sp = v.toNat := h.holds.1

/-- Stores below the top of the stack change nothing on it. -/
theorem scratch (h : OnStack low top m₀ m sp items) {m' : Memory}
    (hsame : ∀ x, x < low ∨ sp ≤ x → m' x = m x) : OnStack low top m₀ m' sp items := by
  constructor
  · exact h.count
  · exact h.room
  · apply h.holds.congr
    intro x hx _
    exact hsame x (Or.inr hx)
  · intro x hx
    have hcount := h.count
    rw [hsame x (by omega)]
    exact h.kept x hx

end OnStack

end Foundation
