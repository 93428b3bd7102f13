import Mathlib.Data.List.TakeWhile
import Mathlib.Algebra.Order.Ring.Int

/-!
# The name of a pool (`cs_wp_init` in `src/cs_workerpool.c`)

`cs_wp_init` numbers the pool, allocates a buffer for its name, and prints the name into it. The size is an
estimate that is linear in the number, and the text grows with the number of its decimal digits. The
quotient `(float) wid / 10` is taken exactly, and the conversion to `int` drops its fraction.
-/

namespace ComplexSim.PoolName

/-- The string at an address, of the bytes that memory has from there on: it ends before the first zero. -/
def cString (mem : List UInt8) : List UInt8 := mem.takeWhile (· ≠ 0)

/-- `strlen`. -/
def strlen (mem : List UInt8) : Nat := (cString mem).length

/-- The bytes of a text of ASCII characters. -/
def ascii (s : String) : List UInt8 := s.toList.map Char.toUInt8

/-- What `%d` prints. -/
def decimal (x : Int) : List UInt8 := ascii (toString x)

/-- `_cs_wp_new_wp_id`, on its static variable. -/
def csWpNewWpId (wpId : Int) : Int := wpId + 1

/-- The size of the buffer. -/
def nameSize (wid : Int) (name : List UInt8) : Nat :=
  (wid.tdiv 10).natAbs + strlen (ascii "cs_workerpool") + 4 + strlen name

/-- What `sprintf` writes for `"cs_workerpool-%d-%s"`, with the terminating zero. -/
def nameText (wid : Int) (name : List UInt8) : List UInt8 :=
  ascii "cs_workerpool-" ++ decimal wid ++ ascii "-" ++ cString name ++ [0]

/-- `sprintf` of `text` into a buffer, or `none` where it writes behind its end. -/
def sprintf (buf text : List UInt8) : Option (List UInt8) :=
  if text.length ≤ buf.length then some (text ++ buf.drop text.length) else none

/-- The buffers of the pools that a process initialises with these names, one after the other. -/
def initNames (wpId : Int) : List (List UInt8) → List (Option (List UInt8))
  | [] => []
  | name :: names =>
      let wid := csWpNewWpId wpId
      sprintf (List.replicate (nameSize wid name) 0) (nameText wid name) :: initNames wid names

theorem sprintf_isSome {buf text : List UInt8} : (sprintf buf text).isSome ↔ text.length ≤ buf.length := by
  simp [sprintf]

/-- A number has at most one digit more than its tenth is great. -/
theorem length_toDigits_le (k : Nat) : (Nat.toDigits 10 k).length ≤ k / 10 + 1 := by
  induction k using Nat.strong_induction_on with
  | _ k ih =>
      rcases lt_or_ge k 10 with hlt | hge
      · rw [Nat.toDigits_of_lt_base hlt, List.length_singleton]
        omega
      · have htenth := ih (k / 10) (by omega)
        rw [Nat.toDigits_of_base_le (by decide) hge, List.length_append, List.length_singleton]
        -- the tenth is at least one, so that its own tenth is less
        omega

theorem length_ascii (s : String) : (ascii s).length = s.toList.length := List.length_map ..

theorem length_decimal (k : Nat) : (decimal k).length = (Nat.toDigits 10 k).length := by
  have hprint : toString (k : Int) = toString k := rfl
  rw [decimal, length_ascii, hprint, Nat.toString_eq_ofList_toDigits]
  simp

theorem length_nameText (wid : Int) (name : List UInt8) :
    (nameText wid name).length = 16 + (decimal wid).length + strlen name := by
  have hfront : (ascii "cs_workerpool-").length = 14 := by decide
  have hdash : (ascii "-").length = 1 := by decide
  simp only [nameText, strlen, List.length_append, List.length_singleton, hfront, hdash]
  omega

theorem nameSize_eq (k : Nat) (name : List UInt8) : nameSize k name = k / 10 + 17 + strlen name := by
  have hword : strlen (ascii "cs_workerpool") = 13 := by decide
  have htenth : ((k : Int).tdiv 10).natAbs = k / 10 := by
    rw [Int.tdiv_eq_ediv_of_nonneg (Int.natCast_nonneg k)]
    omega
  rw [nameSize, hword, htenth]

theorem nameText_le (k : Nat) (name : List UInt8) : (nameText k name).length ≤ nameSize k name := by
  have hdigits := length_toDigits_le k
  rw [length_nameText, nameSize_eq, length_decimal]
  omega

/-- **The name fits** its buffer, for every pool number and every name. -/
theorem name_fits (wid : Int) (name : List UInt8) (hwid : 1 ≤ wid) :
    (nameText wid name).length ≤ nameSize wid name := by
  obtain ⟨k, rfl⟩ := Int.eq_ofNat_of_zero_le (by omega : 0 ≤ wid)
  exact nameText_le k name

/-- The buffer of the first pool, named `EVM`, is filled to its last byte. -/
theorem name_fits_first : nameSize 1 (ascii "EVM") = 20 ∧ (nameText 1 (ascii "EVM")).length ≤ 20 := by
  have hsize : nameSize 1 (ascii "EVM") = 20 := by decide
  have hfits := name_fits 1 (ascii "EVM") (by decide)
  rw [hsize] at hfits
  exact ⟨hsize, hfits⟩

/-- However many pools a process initialises, and whatever it calls them, no name is written behind the end
of its buffer. -/
theorem initNames_written (names : List (List UInt8)) : ∀ buf ∈ initNames 0 names, buf.isSome := by
  have hfrom : ∀ k : Nat, ∀ buf ∈ initNames k names, buf.isSome := by
    induction names with
    | nil => exact fun k buf hbuf => absurd hbuf List.not_mem_nil
    | cons name names ih =>
        intro k buf hbuf
        rcases List.mem_cons.1 hbuf with rfl | hbuf
        · rw [sprintf_isSome, List.length_replicate]
          exact nameText_le (k + 1) name
        · exact ih (k + 1) buf hbuf
  exact hfrom 0

end ComplexSim.PoolName
