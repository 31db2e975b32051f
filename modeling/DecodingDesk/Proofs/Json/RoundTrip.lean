import DecodingDesk.Json.Printer
import DecodingDesk.Json.Reader
import DecodingDesk.Proofs.Decimal.Numeral
import DecodingDesk.Proofs.Json.Quoted
/-!
# Reading values back

Every value is read back from its compact form, and so two values with one compact form
are the same.  The recursion of the reader is bounded by the length of its text, and each
function of the printer writes enough characters for the calls that read them.
-/

namespace DecodingDesk.Json

open Decimal (Digit EndsNumeral Numeral)

variable {rest : List Char}

theorem skipSpace_cons {c : Char} (hc : isSpace c = false) (cs : List Char) :
    skipSpace (c :: cs) = c :: cs := by
  simp [skipSpace, hc]

/-! ## Strings -/

theorem exists_stringChars (t : Option String) :
    ∃ cs, stringChars t = '"' :: cs ∧ ∀ rest, readString (cs ++ rest) = some (t, rest) := by
  cases t with
  | none =>
    refine ⟨Quoted.unpaired.tail, rfl, fun rest => ?_⟩
    rw [readString, Quoted.read?_unpaired]
    rfl
  | some s =>
    refine ⟨s.toList.flatMap Quoted.escape ++ ['"'], rfl, fun rest => ?_⟩
    rw [List.append_assoc, List.singleton_append, readString, Quoted.read?_flatMap_escape,
      Option.map_some, Quoted.text?_map_char]

theorem readName_stringChars (name : Option String) (rest : List Char) :
    readName (stringChars name ++ ':' :: rest) = some (name, rest) := by
  obtain ⟨cs, hcs, hread⟩ := exists_stringChars name
  simp only [hcs, List.cons_append, readName, skipSpace_cons (c := '"') rfl, hread,
    skipSpace_cons (c := ':') rfl]

/-! ## What values begin with and what follows them -/

private theorem head_of_numeral {c : Char} (hc : c = '-' ∨ ∃ d, c = Digit.char d) :
    isSpace c = false ∧ c ≠ ']' ∧
      c ≠ 'n' ∧ c ≠ 't' ∧ c ≠ 'f' ∧ c ≠ '"' ∧ c ≠ '[' ∧ c ≠ '{' := by
  obtain rfl | ⟨d, rfl⟩ := hc
  · decide
  · revert d
    decide

theorem exists_chars_eq_cons (v : Value) :
    ∃ c cs, v.chars = c :: cs ∧ isSpace c = false ∧ c ≠ ']' := by
  cases v with
  | null => exact ⟨'n', _, rfl, by decide⟩
  | bool b => cases b <;> exact ⟨_, _, rfl, by decide⟩
  | num n =>
    obtain ⟨c, cs, hcs, hc⟩ := n.exists_chars_eq_cons
    have hhead := head_of_numeral hc
    exact ⟨c, cs, by rw [Value.chars, hcs], hhead.1, hhead.2.1⟩
  | str t =>
    obtain ⟨cs, hcs, -⟩ := exists_stringChars t
    exact ⟨'"', cs, by rw [Value.chars, hcs], by decide⟩
  | arr items => cases items <;> exact ⟨'[', _, rfl, by decide⟩
  | obj members => cases members <;> exact ⟨'{', _, rfl, by decide⟩

theorem readValue_of_numeral {c : Char} (hc : c = '-' ∨ ∃ d, c = Digit.char d) (cs : List Char)
    (fuel : Nat) :
    readValue (fuel + 1) (c :: cs) = (Numeral.read? (c :: cs)).map fun r => (.num r.1, r.2) := by
  obtain ⟨hspace, -, hne⟩ := head_of_numeral hc
  rw [readValue, skipSpace_cons hspace]
  split <;> simp_all

theorem endsNumeral_itemChars (items : List Value) (rest : List Char) :
    EndsNumeral (itemChars items ++ rest) := by
  cases items <;>
  · rintro c ⟨⟩
    decide

theorem endsNumeral_memberChars (members : List (Option String × Value)) (rest : List Char) :
    EndsNumeral (memberChars members ++ rest) := by
  cases members <;>
  · rintro c ⟨⟩
    decide

/-! ## The reader on what the printer writes -/

/-- What is read behind an opening bracket, if it is not the end of the array. -/
theorem readValue_arr {v : Value} {items : List Value} {cs after : List Char} {fuel : Nat}
    (hread : readValue fuel (v.chars ++ cs) = some (v, after))
    (hitems : readItems fuel after = some (items, rest)) :
    readValue (fuel + 1) ('[' :: (v.chars ++ cs)) = some (.arr (v :: items), rest) := by
  obtain ⟨c, tail, htail, hspace, hne⟩ := exists_chars_eq_cons v
  rw [htail, List.cons_append] at hread ⊢
  rw [readValue, skipSpace_cons (c := '[') rfl]
  simp only [skipSpace_cons hspace]
  split
  -- a closing bracket at this place would make the array empty
  · exact absurd (List.cons.inj ‹_›).1 hne
  · rw [hread]
    simp only [hitems, Option.map_some]

private theorem exists_eq_succ {n fuel : Nat} (h : n + 1 ≤ fuel) : ∃ m, fuel = m + 1 ∧ n ≤ m :=
  ⟨fuel - 1, by omega⟩

/-- A member and what follows it, from the name on. -/
def entryChars (name : Option String) (v : Value) (members : List (Option String × Value)) :
    List Char :=
  stringChars name ++ ':' :: (v.chars ++ memberChars members)

theorem chars_obj_cons (name : Option String) (v : Value)
    (members : List (Option String × Value)) :
    (Value.obj ((name, v) :: members)).chars = '{' :: entryChars name v members := by
  simp only [Value.chars, entryChars, List.cons_append, List.append_assoc]

theorem memberChars_cons (name : Option String) (v : Value)
    (members : List (Option String × Value)) :
    memberChars ((name, v) :: members) = ',' :: entryChars name v members := by
  simp only [memberChars, entryChars, List.cons_append, List.append_assoc]

theorem readValue_obj {name : Option String} {v : Value}
    {members read : List (Option String × Value)} {fuel : Nat}
    (hread : readMember fuel (entryChars name v members ++ rest) = some (read, rest)) :
    readValue (fuel + 1) ('{' :: (entryChars name v members ++ rest)) =
      some (.obj read, rest) := by
  obtain ⟨tail, htail, -⟩ := exists_stringChars name
  rw [entryChars, htail, List.cons_append, List.cons_append] at hread ⊢
  rw [readValue, skipSpace_cons (c := '{') rfl]
  simp only [skipSpace_cons (c := '"') rfl]
  split
  · exact absurd (List.cons.inj ‹_›).1 (by decide)
  · rw [hread, Option.map_some]

/-- A member is read if its value is and what follows it. -/
theorem readMember_entryChars {name : Option String} {v : Value}
    {members : List (Option String × Value)} {fuel : Nat}
    (hfuel : (entryChars name v members).length ≤ fuel)
    (hv : ∀ n, v.chars.length ≤ n →
      readValue n (v.chars ++ (memberChars members ++ rest)) =
        some (v, memberChars members ++ rest))
    (hmembers : ∀ n, (memberChars members).length ≤ n →
      readMembers n (memberChars members ++ rest) = some (members, rest)) :
    readMember fuel (entryChars name v members ++ rest) = some ((name, v) :: members, rest) := by
  rw [entryChars, List.length_append, List.length_cons, List.length_append] at hfuel
  -- the name and the colon leave room for the call that reads the value
  have hroom : v.chars.length + (memberChars members).length + 1 ≤ fuel := by omega
  obtain ⟨fuel, rfl, hle⟩ := exists_eq_succ hroom
  rw [readMember, entryChars, List.append_assoc, List.cons_append, List.append_assoc,
    readName_stringChars]
  simp only [hv fuel (by omega), hmembers fuel (by omega), Option.map_some]

-- The recursion is that of the printer.  What a value is followed by never goes on with a
-- number: a comma, a closing bracket or the end.
mutual

theorem readValue_chars (v : Value) (rest : List Char) (hrest : EndsNumeral rest) (fuel : Nat)
    (hfuel : v.chars.length ≤ fuel) : readValue fuel (v.chars ++ rest) = some (v, rest) := by
  match v with
  | .null =>
    obtain ⟨fuel, rfl, -⟩ := exists_eq_succ hfuel
    rfl
  | .bool b =>
    cases b <;>
    · obtain ⟨fuel, rfl, -⟩ := exists_eq_succ hfuel
      rfl
  | .num n =>
    obtain ⟨c, cs, hcs, hc⟩ := n.exists_chars_eq_cons
    have hread := n.read?_chars hrest
    rw [Value.chars, hcs] at hfuel ⊢
    rw [hcs, List.cons_append] at hread
    obtain ⟨fuel, rfl, -⟩ := exists_eq_succ hfuel
    rw [List.cons_append, readValue_of_numeral hc, hread, Option.map_some]
  | .str t =>
    obtain ⟨cs, hcs, hread⟩ := exists_stringChars t
    rw [Value.chars, hcs] at hfuel ⊢
    obtain ⟨fuel, rfl, -⟩ := exists_eq_succ hfuel
    rw [List.cons_append, readValue, skipSpace_cons (c := '"') rfl]
    simp only [hread, Option.map_some]
  | .arr [] =>
    obtain ⟨fuel, rfl, -⟩ := exists_eq_succ hfuel
    rfl
  | .arr (v :: items) =>
    rw [Value.chars, List.cons_append, List.length_cons, List.length_append] at hfuel
    obtain ⟨fuel, rfl, hle⟩ := exists_eq_succ hfuel
    have hv := readValue_chars v _ (endsNumeral_itemChars items rest) fuel (by omega)
    have hitems := readItems_itemChars items rest fuel (by omega)
    rw [Value.chars, List.cons_append, List.cons_append, List.append_assoc]
    exact readValue_arr hv hitems
  | .obj [] =>
    obtain ⟨fuel, rfl, -⟩ := exists_eq_succ hfuel
    rfl
  | .obj ((name, v) :: members) =>
    rw [chars_obj_cons] at hfuel ⊢
    obtain ⟨fuel, rfl, hle⟩ := exists_eq_succ hfuel
    exact readValue_obj (readMember_entryChars hle
      (readValue_chars v _ (endsNumeral_memberChars members rest))
      (readMembers_memberChars members rest))

theorem readItems_itemChars (items : List Value) (rest : List Char) (fuel : Nat)
    (hfuel : (itemChars items).length ≤ fuel) :
    readItems fuel (itemChars items ++ rest) = some (items, rest) := by
  match items with
  | [] =>
    obtain ⟨fuel, rfl, -⟩ := exists_eq_succ hfuel
    rfl
  | v :: items =>
    rw [itemChars, List.cons_append, List.length_cons, List.length_append] at hfuel
    obtain ⟨fuel, rfl, hle⟩ := exists_eq_succ hfuel
    have hv := readValue_chars v _ (endsNumeral_itemChars items rest) fuel (by omega)
    have hitems := readItems_itemChars items rest fuel (by omega)
    rw [itemChars, List.cons_append, List.cons_append, List.append_assoc, readItems,
      skipSpace_cons (c := ',') rfl]
    simp only [hv, hitems, Option.map_some]

theorem readMembers_memberChars (members : List (Option String × Value)) (rest : List Char)
    (fuel : Nat) (hfuel : (memberChars members).length ≤ fuel) :
    readMembers fuel (memberChars members ++ rest) = some (members, rest) := by
  match members with
  | [] =>
    obtain ⟨fuel, rfl, -⟩ := exists_eq_succ hfuel
    rfl
  | (name, v) :: members =>
    rw [memberChars_cons] at hfuel ⊢
    obtain ⟨fuel, rfl, hle⟩ := exists_eq_succ hfuel
    rw [List.cons_append, readMembers, skipSpace_cons (c := ',') rfl]
    exact readMember_entryChars hle
      (readValue_chars v _ (endsNumeral_memberChars members rest))
      (readMembers_memberChars members rest)

end

/-- Reading is inverse to writing. -/
theorem parse?_print (v : Value) : parse? v.print = some v := by
  have hread := readValue_chars v [] (fun c hc => by cases hc) (v.chars.length + 1) (by omega)
  rw [List.append_nil] at hread
  simp only [parse?, Value.print, String.toList_ofList, hread]
  rfl

theorem parse?_of_print_eq {v : Value} {text : String} (h : v.print = text) :
    parse? text = some v := by
  rw [← h, parse?_print]

theorem print_injective : Function.Injective Value.print := by
  intro v w heq
  have hread := parse?_print v
  rw [heq, parse?_print] at hread
  exact (Option.some.inj hread).symm

end DecodingDesk.Json
