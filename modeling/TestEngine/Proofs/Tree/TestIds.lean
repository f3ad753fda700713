import Mathlib.Data.List.Nodup
import TestEngine.UniqueId

/-!
# The unique IDs of tests

The tests of a case are told apart by their index. The bytes of their paths differ, so their unique
IDs do, as long as SHA-256 does not collide on these bytes.

* `NodePath.eq_of_bytes_test_eq` — the bytes of the path of a test determine its index.
* `NodePath.nodup_testIds` — the IDs of the tests of a case, under that assumption.
-/

namespace TestEngine

namespace Hexadecimal

theorem digit_injective {m n : Nat} (hm : m < 16) (hn : n < 16) (h : digit m = digit n) :
    m = n := by
  have hv := congrArg value? h
  rw [value?_digit hm, value?_digit hn] at hv
  exact Option.some.inj hv

theorem ofByte_injective {b c : UInt8} (h : ofByte b = ofByte c) : b = c := by
  have hb := b.toNat_lt
  have hc := c.toNat_lt
  have hdigits := List.cons.inj h
  have hhigh := digit_injective (by omega) (by omega) hdigits.1
  have hlow := digit_injective (by omega) (by omega) (List.cons.inj hdigits.2).1
  exact UInt8.toNat_inj.mp (by omega)

/-- Different bytes have different digits. -/
theorem ofBytes_injective {bs cs : List UInt8} (h : ofBytes bs = ofBytes cs) : bs = cs := by
  have hlist : bs.flatMap ofByte = cs.flatMap ofByte := String.ofList_injective h
  induction bs generalizing cs with
  | nil =>
    cases cs with
    | nil => rfl
    | cons c cs => cases hlist
  | cons b bs ih =>
    cases cs with
    | nil => cases hlist
    | cons c cs =>
      rw [List.flatMap_cons, List.flatMap_cons] at hlist
      obtain ⟨hbyte, hrest⟩ := List.append_inj hlist rfl
      rw [ofByte_injective hbyte, ih (congrArg String.ofList hrest) hrest]

end Hexadecimal

namespace NodePath

theorem toList_loop_eq (bs : ByteArray) (i : Nat) (done : List UInt8) :
    ByteArray.toList.loop bs i done = done.reverse ++ bs.data.toList.drop i := by
  fun_induction ByteArray.toList.loop bs i done with
  | case1 i done h ih =>
    have hi : i < bs.data.toList.length := h
    have hget : bs.get! i = bs.data.toList[i] := by
      show bs.data[i]! = _
      rw [getElem!_pos bs.data i h, Array.getElem_toList]
    rw [ih, List.reverse_cons, List.append_assoc, List.singleton_append,
      List.drop_eq_getElem_cons hi, hget]
  | case2 i done h =>
    have hi : bs.data.toList.length ≤ i := Nat.le_of_not_lt h
    rw [List.drop_eq_nil_of_le hi, List.append_nil]

/-- The bytes of a text, as a list, are the text. -/
theorem eq_of_toUTF8_toList_eq {s t : String} (h : s.toUTF8.toList = t.toUTF8.toList) : s = t := by
  have hlist : s.toUTF8.data.toList = t.toUTF8.data.toList := by
    rwa [ByteArray.toList, ByteArray.toList, toList_loop_eq, toList_loop_eq] at h
  exact String.toByteArray_inj.mp (ByteArray.ext (Array.toList_inj.mp hlist))

theorem eq_of_textBytes_eq {s t : String} (h : textBytes s = textBytes t) : s = t := by
  have hlen : (1 :: lengthBytes s.utf8ByteSize).length =
      (1 :: lengthBytes t.utf8ByteSize).length := by
    rw [List.length_cons, List.length_cons, length_lengthBytes, length_lengthBytes]
  obtain ⟨-, hbytes⟩ := List.append_inj h hlen
  exact eq_of_toUTF8_toList_eq hbytes

theorem eq_of_toString_eq {m n : Nat} (h : toString m = toString n) : m = n := by
  have hdigits := congrArg String.toList h
  rw [Nat.toString_eq_repr, Nat.toString_eq_repr, Nat.toList_repr, Nat.toList_repr] at hdigits
  rw [← Nat.ofDigitChars_ten_toDigits (n := m), hdigits, Nat.ofDigitChars_ten_toDigits]

/-- The bytes of the path of a test determine its index. -/
theorem eq_of_bytes_test_eq {id : String} {i j : Nat} (h : (test id i).bytes = (test id j).bytes) :
    i = j := eq_of_toString_eq (eq_of_textBytes_eq (List.append_cancel_left h))

/-- SHA-256 tells the paths of the first `n` tests apart, of each of some cases. -/
def TestPathsApart (caseIds : List String) (n : Nat) : Prop :=
  ∀ id ∈ caseIds, ∀ i < n, ∀ j < n,
    Sha256.digest (test id i).bytes = Sha256.digest (test id j).bytes →
      (test id i).bytes = (test id j).bytes

/-- No two of the first tests of a case have the same ID. -/
theorem nodup_testIds {caseIds : List String} {id : String} {n k : Nat}
    (h : TestPathsApart caseIds n) (hid : id ∈ caseIds) (hk : k ≤ n) :
    ((List.range k).map fun index => (test id index).uniqueId).Nodup := by
  refine List.Nodup.map_on ?_ List.nodup_range
  intro i hi j hj heq
  have hik := List.mem_range.mp hi
  have hjk := List.mem_range.mp hj
  exact eq_of_bytes_test_eq
    (h id hid i (by omega) j (by omega) (Hexadecimal.ofBytes_injective heq))

example : TestPathsApart ["first", "second"] 2 := by
  unfold TestPathsApart
  decide +kernel

end NodePath

end TestEngine
