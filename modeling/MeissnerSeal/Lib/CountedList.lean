/-
Lists in a byte string: written one element after the other, read at a
cursor as often as a count says.

A reader `Inverts` a writer when at every cursor it takes what the writer
would have put there and nothing else. The loop that runs such a reader
inverts the loop that runs the writer (`readMany_eq_ok`), so a list read
from accepted bytes is written back as those bytes.
-/
import MeissnerSeal.Lib.TlvList

namespace CountedList

open ByteCodec ExceptRules TlvList

variable {ε ε' α : Type} {bytes : Bytes} {Good : α → Prop} {write : α → Except ε' Bytes}
  {read : Nat → Except ε (α × Nat)}

/-- At every cursor the reader takes an element that is `Good` where its
writing stands, and stops behind it. -/
def Inverts (bytes : Bytes) (Good : α → Prop) (write : α → Except ε' Bytes)
    (read : Nat → Except ε (α × Nat)) : Prop :=
  ∀ cursor a stop, read cursor = .ok (a, stop)
    ↔ Good a ∧ ∃ x, write a = .ok x ∧ SegAt bytes cursor x ∧ stop = cursor + x.length

/-- `for _ in 0..count`. -/
def readMany (read : Nat → Except ε (α × Nat)) : Nat → Nat → Except ε (List α × Nat)
  | 0, cursor => .ok ([], cursor)
  | count + 1, cursor => do
      let (a, cursor) ← read cursor
      let (as, cursor) ← readMany read count cursor
      return (a :: as, cursor)

/-- The loop takes a list of `count` elements where its writing stands. -/
theorem readMany_eq_ok (h : Inverts bytes Good write read) {count cursor stop : Nat} {as : List α}
    (hcursor : cursor ≤ bytes.length) :
    readMany read count cursor = .ok (as, stop)
      ↔ as.length = count ∧ (∀ a ∈ as, Good a)
        ∧ ∃ x, writeList write as = .ok x ∧ SegAt bytes cursor x ∧ stop = cursor + x.length := by
  induction count generalizing cursor stop as with
  | zero =>
      rw [readMany, Except.ok.injEq, Prod.mk.injEq]
      constructor
      · rintro ⟨rfl, rfl⟩
        exact ⟨rfl, by simp, [], rfl, segAt_nil hcursor, rfl⟩
      · rintro ⟨hlen, -, x, hx, -, rfl⟩
        obtain rfl := List.length_eq_zero_iff.mp hlen
        rw [writeList, Except.ok.injEq] at hx
        exact ⟨rfl, by rw [← hx]; rfl⟩
  | succ count ih =>
      simp only [readMany, bind_eq_ok, Prod.exists, pure_eq_ok, Except.ok.injEq, Prod.mk.injEq]
      constructor
      · rintro ⟨a, mid, hread, as, _, hrest, rfl, rfl⟩
        obtain ⟨hgood, x, hx, hseg, rfl⟩ := (h cursor a mid).mp hread
        obtain ⟨rfl, hgoods, y, hy, hsegs, rfl⟩ := (ih hseg.le).mp hrest
        refine ⟨rfl, List.forall_mem_cons.mpr ⟨hgood, hgoods⟩, x ++ y,
          writeList_cons_eq_ok.mpr ⟨x, y, hx, hy, rfl⟩, segAt_append.mpr ⟨hseg, hsegs⟩, ?_⟩
        rw [List.length_append, Nat.add_assoc]
      · rintro ⟨hlen, hgoods, z, hz, hseg, rfl⟩
        obtain ⟨a, as, rfl⟩ := List.exists_cons_of_length_eq_add_one hlen
        obtain ⟨x, y, hx, hy, rfl⟩ := writeList_cons_eq_ok.mp hz
        obtain ⟨hgood, hgoods⟩ := List.forall_mem_cons.mp hgoods
        obtain ⟨hseg, hsegs⟩ := segAt_append.mp hseg
        rw [List.length_append, ← Nat.add_assoc]
        exact ⟨a, _, (h cursor a _).mpr ⟨hgood, x, hx, hseg, rfl⟩, as, _,
          (ih hseg.le).mpr ⟨Nat.succ.inj hlen, hgoods, y, hy, hsegs, rfl⟩, rfl, rfl⟩

end CountedList
