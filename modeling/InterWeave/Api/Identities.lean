import InterWeave.Api.Identity

/-!
Peer identities in any number, one for each number that fits the last forty-three places of the
text. They start as the identities of keys do, so each is one the source accepts, and they fill
the tables whose behaviour shows only when they are full.
-/

namespace InterWeave

theorem bytesOf_ofList_append (first second : List Char) :
    bytesOf (String.ofList (first ++ second)) =
      bytesOf (String.ofList first) ++ bytesOf (String.ofList second) := by
  simp [bytesOf]

namespace TransportIdentity

def digit (bit : Bool) : Char :=
  if bit then '2' else '1'

def digitByte (bit : Bool) : UInt8 :=
  if bit then 0x32 else 0x31

def places (number : Nat) : List Bool :=
  (List.range 43).map number.testBit

def numberedText (number : Nat) : String :=
  String.ofList ("12D3KooWA".toList ++ (places number).map digit)

theorem bytesOf_digits {bits : List Bool} :
    bytesOf (String.ofList (bits.map digit)) = bits.map digitByte := by
  induction bits with
  | nil => rfl
  | cons bit rest ih =>
    rw [List.map_cons, ← List.singleton_append, bytesOf_ofList_append, ih]
    cases bit <;> rfl

theorem bytesOf_numberedText (number : Nat) :
    bytesOf (numberedText number) = bytesOf "12D3KooWA" ++ (places number).map digitByte := by
  have parts := bytesOf_ofList_append "12D3KooWA".toList ((places number).map digit)
  have header : String.ofList "12D3KooWA".toList = "12D3KooWA" := String.ofList_toList
  rw [bytesOf_digits, header] at parts
  exact parts

theorem check_numberedText : check (numberedText number) = .ok () := by
  have glyphs : ((places number).map digitByte).all base58Glyph = true := by
    rw [List.all_map, List.all_eq_true]
    intro bit _
    cases bit <;> decide
  have length : ((places number).map digitByte).length = 43 := by simp [places]
  have header : bytesOf "12D3KooWA" = [0x31, 0x32, 0x44, 0x33, 0x4b, 0x6f, 0x6f, 0x57, 0x41] := by
    decide
  have bytes := bytesOf_numberedText number
  generalize (places number).map digitByte = rest at glyphs length bytes
  have canonical : canonicalRest (bytesOf (numberedText number)) = some (0x41 :: rest) := by
    rw [bytes, canonicalRest, header]
    rfl
  have first : base58Glyph 0x41 = true := by decide
  simp only [check, canonical]
  simp [bytes, header, maxBytes, length, glyphs, first]

def numbered (number : Nat) : TransportIdentity :=
  ⟨numberedText number, check_numberedText⟩

theorem numbered_inj (small : first < 2 ^ 43) (smaller : second < 2 ^ 43)
    (same : numbered first = numbered second) : first = second := by
  have texts : numberedText first = numberedText second := congrArg asStr same
  have bytes := congrArg bytesOf texts
  rw [bytesOf_numberedText, bytesOf_numberedText, List.append_cancel_left_eq] at bytes
  apply Nat.eq_of_testBit_eq
  intro place
  by_cases within : place < 43
  · have digits := congrArg (·[place]?) bytes
    simp only [places, List.getElem?_map, List.getElem?_range within, Option.map_some,
      Option.some.injEq] at digits
    revert digits
    cases first.testBit place <;> cases second.testBit place <;> decide
  · have larger : 2 ^ 43 ≤ 2 ^ place := Nat.pow_le_pow_right (by omega) (by omega)
    rw [Nat.testBit_lt_two_pow (small.trans_le larger),
      Nat.testBit_lt_two_pow (smaller.trans_le larger)]

end TransportIdentity

end InterWeave
