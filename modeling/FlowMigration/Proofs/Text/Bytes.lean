import FlowMigration.Proofs.Glob.Ending

/-!
# The order of texts

Texts are ordered by their characters. In UTF-8 that is the order of their bytes, which is how an
operating system compares the names of a directory.

* `utf8EncodeChar_lt`: of two characters the smaller one has the smaller bytes, whatever follows.
* `bytes_lt`: so of two texts the smaller one has the smaller bytes.
-/

namespace FlowMigration.Text

open Glob (bytes)

theorem ofNat_cons_lt {a b : Nat} {xs ys : List UInt8} (hb : b < 256) (hab : a ≤ b)
    (h : a = b → xs < ys) : UInt8.ofNat a :: xs < UInt8.ofNat b :: ys := by
  rcases Nat.lt_or_eq_of_le hab with hlt | rfl
  · have hbyte : UInt8.ofNat a < UInt8.ofNat b := by
      rw [UInt8.lt_iff_toNat_lt, UInt8.toNat_ofNat', UInt8.toNat_ofNat', Nat.mod_eq_of_lt hb,
        Nat.mod_eq_of_lt (Nat.lt_trans hlt hb)]
      exact hlt
    exact List.cons_lt_cons_iff.2 (.inl hbyte)
  · exact List.cons_lt_cons_iff.2 (.inr ⟨rfl, h rfl⟩)

theorem toNat_val_lt (c : Char) : c.val.toNat < 1114112 := by
  rcases c.valid with h | ⟨-, h⟩
  · exact Nat.lt_trans h (by decide)
  · exact h

/-- **The order of characters** is that of their bytes: longer encodings begin with greater bytes,
and those of one length hold the digits of the character from the highest one on. -/
theorem utf8EncodeChar_lt {c d : Char} (h : c < d) (xs ys : List UInt8) :
    String.utf8EncodeChar c ++ xs < String.utf8EncodeChar d ++ ys := by
  have hlt : c.val.toNat < d.val.toNat := h
  have hd := toNat_val_lt d
  unfold String.utf8EncodeChar
  dsimp only
  generalize c.val.toNat = m at hlt
  generalize d.val.toNat = n at hlt hd
  repeat' split
  all_goals simp only [List.cons_append, List.nil_append]
  -- one case for each two lengths: the first bytes decide, or the first two, and so on
  all_goals first
    | omega
    | exact ofNat_cons_lt (by omega) (by omega) fun _ => by omega
    | exact ofNat_cons_lt (by omega) (by omega) fun _ =>
        ofNat_cons_lt (by omega) (by omega) fun _ => by omega
    | exact ofNat_cons_lt (by omega) (by omega) fun _ =>
        ofNat_cons_lt (by omega) (by omega) fun _ =>
          ofNat_cons_lt (by omega) (by omega) fun _ => by omega
    | exact ofNat_cons_lt (by omega) (by omega) fun _ =>
        ofNat_cons_lt (by omega) (by omega) fun _ =>
          ofNat_cons_lt (by omega) (by omega) fun _ =>
            ofNat_cons_lt (by omega) (by omega) fun _ => by omega

theorem utf8EncodeChar_ne_nil (c : Char) : String.utf8EncodeChar c ≠ [] := by
  intro h
  have hlen := String.length_utf8EncodeChar c
  rw [h] at hlen
  exact absurd hlen (Nat.ne_of_lt c.utf8Size_pos)

theorem flatMap_utf8EncodeChar_lt {cs ds : List Char} (h : List.Lex (· < ·) cs ds) :
    cs.flatMap String.utf8EncodeChar < ds.flatMap String.utf8EncodeChar := by
  induction h with
  | @nil d ds =>
    obtain ⟨b, bs, hb⟩ := List.exists_cons_of_ne_nil (utf8EncodeChar_ne_nil d)
    rw [List.flatMap_nil, List.flatMap_cons, hb]
    exact List.nil_lt_cons b _
  | rel hlt => exact utf8EncodeChar_lt hlt _ _
  | cons _ ih => exact List.append_left_lt ih

/-- **The order of texts** is that of their `bytes`. -/
theorem bytes_lt {a b : String} (h : a < b) : bytes a < bytes b := by
  rw [Glob.bytes_eq, Glob.bytes_eq]
  exact flatMap_utf8EncodeChar_lt (String.lt_iff.1 h)

end FlowMigration.Text
