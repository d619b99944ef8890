import RpcFrmwrk.Library.BigEndian

/-! Words in the memory of a machine of either byte order. Owns `store` and `load`, a word in
memory; `swap`, which turns a word around on a little-endian machine, and what it makes of words
that come from or go to big-endian memory. -/

namespace RpcFrmwrk.Library

inductive ByteOrder where
  | big
  | little
deriving DecidableEq, Repr

namespace ByteOrder

/-- The `width` bytes of a word in memory. -/
def store : ByteOrder → Nat → Nat → List UInt8
  | .big, width, value => toBE width value
  | .little, width, value => (toBE width value).reverse

/-- The word that the bytes in memory are. -/
def load : ByteOrder → List UInt8 → Nat
  | .big, bytes => ofBE bytes
  | .little, bytes => ofBE bytes.reverse

/-- The word whose bytes in memory are the big-endian ones of `value`. -/
def swap (order : ByteOrder) (width value : Nat) : Nat := order.load (toBE width value)

variable (order : ByteOrder)

theorem store_load (bytes : List UInt8) : order.store bytes.length (order.load bytes) = bytes := by
  cases order with
  | big => exact toBE_ofBE bytes
  | little =>
    have whole := toBE_ofBE bytes.reverse
    rw [List.length_reverse] at whole
    rw [store, load, whole, List.reverse_reverse]

theorem store_swap (width value : Nat) : order.store width (order.swap width value) = toBE width value := by
  have whole := store_load order (toBE width value)
  rwa [length_toBE] at whole

theorem swap_load {width : Nat} {bytes : List UInt8} (length : bytes.length = width) :
    order.swap width (order.load bytes) = ofBE bytes := by
  subst length
  cases order with
  | big =>
    show ofBE (toBE bytes.length (ofBE bytes)) = ofBE bytes
    rw [toBE_ofBE]
  | little =>
    have whole := toBE_ofBE bytes.reverse
    rw [List.length_reverse] at whole
    show ofBE (toBE bytes.length (ofBE bytes.reverse)).reverse = ofBE bytes
    rw [whole, List.reverse_reverse]

end ByteOrder

end RpcFrmwrk.Library
