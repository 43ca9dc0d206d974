import ApiReference.Json.Reader
import ApiReference.Proofs.Json.Numeral
import ApiReference.Proofs.Json.Quoting

/-!
# Texts of a document

A document is a text with the tokens of its value, one after another, and blanks anywhere between them (`Spelling`).
A string may be spelled in any way, and a number as `Number.write` writes it.

- `read_of_spelling`: every text of a value is read as the value;
- `spelling_write`: `write` gives one of its texts, so it is undone by reading (`read_write`).

The tokens are found first (`tokens_of_layout`): a token is read where it is spelled, whatever follows, since no two
numbers stand side by side. Then the states of the reader follow the value (`foldlM_tokens`).
-/

namespace ApiReference.Json

/-! ## Tokens of a value -/

mutual

/-- The tokens of a value. -/
def tokens : Json → List Token
  | .null => [.null]
  | .bool b => [.bool b]
  | .num x => [.num x]
  | .str v => [.str v]
  | .arr [] => [.beginArray, .endArray]
  | .arr (v :: items) => .beginArray :: (tokens v ++ itemTokens items)
  | .obj [] => [.beginObject, .endObject]
  | .obj ((key, v) :: members) => .beginObject :: .str key :: .colon :: (tokens v ++ memberTokens members)

/-- The tokens behind the first item of an array. -/
def itemTokens : List Json → List Token
  | [] => [.endArray]
  | v :: items => .comma :: (tokens v ++ itemTokens items)

/-- The tokens behind the first member of an object. -/
def memberTokens : List (Str × Json) → List Token
  | [] => [.endObject]
  | (key, v) :: members => .comma :: .str key :: .colon :: (tokens v ++ memberTokens members)

end

/-! ## Texts -/

/-- The spellings of a token. -/
inductive Token.Spelling : Token → Text → Prop
  | beginArray : Spelling .beginArray ['[']
  | endArray : Spelling .endArray [']']
  | beginObject : Spelling .beginObject ['\x7b']
  | endObject : Spelling .endObject ['\x7d']
  | comma : Spelling .comma [',']
  | colon : Spelling .colon [':']
  | null : Spelling .null "null".toList
  | yes : Spelling (.bool true) "true".toList
  | no : Spelling (.bool false) "false".toList
  | num (x : Number) : Spelling (.num x) x.write
  | str {v : Str} {s : Text} (hs : StrSpelling v s) : Spelling (.str v) ('"' :: (s ++ ['"']))

/-- The texts with the given tokens, one after another, and blanks anywhere between them. -/
inductive Layout : List Token → Text → Prop
  | nil : Layout [] []
  | blank {c : Char} {ts : List Token} {s : Text} (hc : c ∈ [' ', '\t', '\n', '\r']) (h : Layout ts s) :
      Layout ts (c :: s)
  | token {t : Token} {ts : List Token} {w s : Text} (ht : t.Spelling w) (h : Layout ts s) :
      Layout (t :: ts) (w ++ s)

/-- The texts of a value. -/
def Spelling (v : Json) (s : Text) : Prop :=
  Layout (tokens v) s

/-! ## Numbers stand apart -/

/-- Whether the first token is a number. -/
def beginsWithNumber : List Token → Bool
  | .num _ :: _ => true
  | _ => false

/-- No two numbers stand side by side. -/
def NumbersApart : List Token → Prop
  | [] => True
  | t :: ts => (beginsWithNumber [t] → ¬ beginsWithNumber ts) ∧ NumbersApart ts

theorem NumbersApart.cons {t : Token} {ts : List Token} (ht : ¬ beginsWithNumber [t]) (h : NumbersApart ts) :
    NumbersApart (t :: ts) :=
  ⟨fun hn => absurd hn ht, h⟩

theorem beginsWithNumber_items (items : List Json) (rest : List Token) :
    ¬ beginsWithNumber (itemTokens items ++ rest) := by
  cases items <;> simp [itemTokens, beginsWithNumber]

theorem beginsWithNumber_members (members : List (Str × Json)) (rest : List Token) :
    ¬ beginsWithNumber (memberTokens members ++ rest) := by
  rcases members with _ | ⟨⟨key, v⟩, members⟩ <;> simp [memberTokens, beginsWithNumber]

mutual

theorem numbersApart_tokens : ∀ (v : Json) {rest : List Token}, NumbersApart rest → ¬ beginsWithNumber rest →
    NumbersApart (tokens v ++ rest)
  | .null, _, h, _ => .cons Bool.false_ne_true h
  | .bool _, _, h, _ => .cons Bool.false_ne_true h
  | .num _, _, h, hrest => ⟨fun _ => hrest, h⟩
  | .str _, _, h, _ => .cons Bool.false_ne_true h
  | .arr [], _, h, _ => .cons Bool.false_ne_true (.cons Bool.false_ne_true h)
  | .arr (v :: items), _, h, _ => by
    rw [tokens, List.cons_append, List.append_assoc]
    refine .cons Bool.false_ne_true ?_
    exact numbersApart_tokens v (numbersApart_items items h) (beginsWithNumber_items items _)
  | .obj [], _, h, _ => .cons Bool.false_ne_true (.cons Bool.false_ne_true h)
  | .obj ((_, v) :: members), _, h, _ => by
    rw [tokens, List.cons_append, List.cons_append, List.cons_append, List.append_assoc]
    refine .cons Bool.false_ne_true (.cons Bool.false_ne_true (.cons Bool.false_ne_true ?_))
    exact numbersApart_tokens v (numbersApart_members members h) (beginsWithNumber_members members _)

theorem numbersApart_items : ∀ (items : List Json) {rest : List Token}, NumbersApart rest →
    NumbersApart (itemTokens items ++ rest)
  | [], _, h => .cons Bool.false_ne_true h
  | v :: items, _, h => by
    rw [itemTokens, List.cons_append, List.append_assoc]
    refine .cons Bool.false_ne_true ?_
    exact numbersApart_tokens v (numbersApart_items items h) (beginsWithNumber_items items _)

theorem numbersApart_members : ∀ (members : List (Str × Json)) {rest : List Token}, NumbersApart rest →
    NumbersApart (memberTokens members ++ rest)
  | [], _, h => .cons Bool.false_ne_true h
  | (_, v) :: members, _, h => by
    rw [memberTokens, List.cons_append, List.cons_append, List.cons_append, List.append_assoc]
    refine .cons Bool.false_ne_true (.cons Bool.false_ne_true (.cons Bool.false_ne_true ?_))
    exact numbersApart_tokens v (numbersApart_members members h) (beginsWithNumber_members members _)

end

/-! ## Finding the tokens -/

theorem isBlank_eq_true {c : Char} (hc : c ∈ [' ', '\t', '\n', '\r']) : isBlank c = true := by
  simp only [List.mem_cons, List.not_mem_nil, or_false] at hc
  rcases hc with rfl | rfl | rfl | rfl <;> rfl

/-- A text that begins with a digit or a minus sign is read as a number. -/
theorem token_eq_number {c : Char} (hc : c = '-' ∨ ∃ d : Fin 10, c = Nat.digitChar d.val) (s : Text) :
    token? (c :: s) = (number? (c :: s)).map fun (x, rest) => (.num x, rest) := by
  have hall : ∀ d : Fin 10, Nat.digitChar d.val ∉ ['[', ']', '\x7b', '\x7d', ',', ':', '"', 'n', 't', 'f'] := by
    decide
  have hmem : c ∉ ['[', ']', '\x7b', '\x7d', ',', ':', '"', 'n', 't', 'f'] := by
    rcases hc with rfl | ⟨d, rfl⟩
    · decide
    · exact hall d
  simp only [List.mem_cons, List.not_mem_nil, or_false, not_or] at hmem
  rw [token?]
  all_goals simp [hmem]

/-- A number begins with a digit or a minus sign. -/
theorem write_eq_cons (x : Number) :
    ∃ c s, x.write = c :: s ∧ (c = '-' ∨ ∃ d : Fin 10, c = Nat.digitChar d.val) := by
  obtain ⟨negative, whole, fraction, exponent⟩ := x
  cases negative with
  | true => exact ⟨'-', _, rfl, .inl rfl⟩
  | false =>
    obtain ⟨d, ds, hwrite, -, -⟩ := toDigits_eq whole
    refine ⟨_, writeDigits ds ++ writeFraction fraction ++ writeExponent exponent, ?_, .inr ⟨d, rfl⟩⟩
    rw [Number.write, hwrite]
    rfl

/-- A token is read where it is spelled, and it does not begin with a blank. -/
theorem token_append {t : Token} {w : Text} (h : t.Spelling w) {rest : Text}
    (hrest : beginsWithNumber [t] → EndsNumber rest) :
    token? (w ++ rest) = some (t, rest) ∧ ∃ c s, w = c :: s ∧ isBlank c = false := by
  cases h with
  | num x =>
    obtain ⟨c, s, hx, hc⟩ := write_eq_cons x
    have hblank : ∀ d : Fin 10, isBlank (Nat.digitChar d.val) = false := by decide
    refine ⟨?_, c, s, hx, ?_⟩
    · have hnumber := number_write x (hrest rfl)
      rw [hx] at hnumber ⊢
      rw [List.cons_append, token_eq_number hc, ← List.cons_append, hnumber]
      rfl
    · rcases hc with rfl | ⟨d, rfl⟩
      · rfl
      · exact hblank d
  | str hs =>
    refine ⟨?_, _, _, rfl, rfl⟩
    show token? ('"' :: (_ ++ ['"'] ++ rest)) = _
    rw [token?, List.append_assoc, List.singleton_append, string_append hs]
    rfl
  | _ => exact ⟨rfl, _, _, rfl, rfl⟩

/-- A text whose tokens do not begin with a number does not go on a number. -/
theorem endsNumber_of_layout {ts : List Token} {s : Text} (h : Layout ts s) (hts : ¬ beginsWithNumber ts) :
    EndsNumber s := by
  cases h with
  | nil => trivial
  | blank hc _ =>
    simp only [List.mem_cons, List.not_mem_nil, or_false] at hc
    rcases hc with rfl | rfl | rfl | rfl
    all_goals exact ⟨rfl, by decide, by decide, by decide⟩
  | token ht _ =>
    cases ht with
    | num x => exact absurd rfl hts
    | _ => exact ⟨rfl, by decide, by decide, by decide⟩

/-- The tokens of a text are found, if no two numbers stand side by side. -/
theorem tokens_of_layout {ts : List Token} {s : Text} (h : Layout ts s) (hts : NumbersApart ts) :
    tokens? s = some ts := by
  induction h with
  | nil => rw [tokens?]
  | blank hc _ ih =>
    rw [tokens?, if_pos (isBlank_eq_true hc)]
    exact ih hts
  | token ht h ih =>
    rename_i t ts w s
    -- the layout behind the token shows that a number ends where its spelling does
    obtain ⟨hread, c, u, rfl, hc⟩ := token_append ht fun hn => endsNumber_of_layout h (hts.1 hn)
    rw [List.cons_append] at hread ⊢
    rw [tokens?, hc, if_neg Bool.false_ne_true]
    split
    · rename_i t' rest hread'
      rw [hread] at hread'
      obtain ⟨rfl, rfl⟩ := Prod.mk.inj (Option.some.inj hread')
      rw [ih hts.2]
      rfl
    · rename_i hnone
      rw [hread] at hnone
      exact absurd hnone (Option.some_ne_none _)

/-! ## Following the value -/

/-- In the state a value may begin, as the value of the innermost container of `frames`. -/
def State.BeginsValue (state : State) (frames : List Frame) : Prop :=
  ∀ t, t ≠ .endArray → state.step t = State.beginValue frames t

theorem State.beginsValue_value (frames : List Frame) : (State.value frames).BeginsValue frames :=
  fun _ _ => rfl

theorem State.beginsValue_firstItem (frames : List Frame) :
    (State.firstItem frames).BeginsValue (.array [] :: frames) := by
  intro t ht
  cases t with
  | endArray => exact absurd rfl ht
  | _ => rfl

/-- The first token of a value is taken as the first token of a value. -/
theorem State.BeginsValue.foldlM_eq {state : State} {frames : List Frame} (h : state.BeginsValue frames)
    {t : Token} (ht : t ≠ .endArray) (ts : List Token) :
    (t :: ts).foldlM State.step state = (State.beginValue frames t).bind fun s => ts.foldlM State.step s := by
  rw [List.foldlM_cons, h t ht]
  rfl

-- The items and members before the current one stand in the innermost frame, last first, so the theorems on the
-- tokens behind an item or a member are about any such list.

mutual

/-- The tokens of a value lead to the state in which the value is complete. -/
theorem foldlM_tokens : ∀ (v : Json) {state : State} {frames : List Frame} (rest : List Token),
    state.BeginsValue frames →
    (tokens v ++ rest).foldlM State.step state = rest.foldlM State.step (.complete v frames)
  | .null, _, _, rest, h => h.foldlM_eq (by simp) rest
  | .bool _, _, _, rest, h => h.foldlM_eq (by simp) rest
  | .num _, _, _, rest, h => h.foldlM_eq (by simp) rest
  | .str _, _, _, rest, h => h.foldlM_eq (by simp) rest
  | .arr [], _, _, rest, h => h.foldlM_eq (by simp) (.endArray :: rest)
  | .arr (v :: items), state, frames, rest, h => by
    rw [tokens, List.cons_append, List.append_assoc]
    calc (Token.beginArray :: (tokens v ++ (itemTokens items ++ rest))).foldlM State.step state
        = (tokens v ++ (itemTokens items ++ rest)).foldlM State.step (.firstItem frames) := h.foldlM_eq (by simp) _
      _ = (itemTokens items ++ rest).foldlM State.step (.complete v (.array [] :: frames)) :=
          foldlM_tokens v _ (State.beginsValue_firstItem frames)
      _ = rest.foldlM State.step (.complete (.arr (v :: items)) frames) := foldlM_items items v [] frames rest
  | .obj [], _, _, rest, h => h.foldlM_eq (by simp) (.endObject :: rest)
  | .obj ((key, v) :: members), state, frames, rest, h => by
    rw [tokens, List.cons_append, List.cons_append, List.cons_append, List.append_assoc]
    calc (Token.beginObject :: .str key :: .colon :: (tokens v ++ (memberTokens members ++ rest))).foldlM
            State.step state
        = (tokens v ++ (memberTokens members ++ rest)).foldlM State.step (.value (.object [] key :: frames)) :=
          h.foldlM_eq (by simp) _
      _ = (memberTokens members ++ rest).foldlM State.step (.complete v (.object [] key :: frames)) :=
          foldlM_tokens v _ (State.beginsValue_value _)
      _ = rest.foldlM State.step (.complete (.obj ((key, v) :: members)) frames) :=
          foldlM_members members key v [] frames rest

/-- The tokens behind an item add the other items and end the array. -/
theorem foldlM_items : ∀ (items : List Json) (v : Json) (done : List Json) (frames : List Frame) (rest : List Token),
    (itemTokens items ++ rest).foldlM State.step (.complete v (.array done :: frames)) =
      rest.foldlM State.step (.complete (.arr ((v :: done).reverse ++ items)) frames)
  | [], v, done, frames, rest => by
    rw [List.append_nil]
    rfl
  | w :: items, v, done, frames, rest => by
    rw [itemTokens, List.cons_append, List.append_assoc]
    calc (Token.comma :: (tokens w ++ (itemTokens items ++ rest))).foldlM State.step
            (.complete v (.array done :: frames))
        = (tokens w ++ (itemTokens items ++ rest)).foldlM State.step (.value (.array (v :: done) :: frames)) := rfl
      _ = (itemTokens items ++ rest).foldlM State.step (.complete w (.array (v :: done) :: frames)) :=
          foldlM_tokens w _ (State.beginsValue_value _)
      _ = rest.foldlM State.step (.complete (.arr ((w :: v :: done).reverse ++ items)) frames) :=
          foldlM_items items w (v :: done) frames rest
      _ = rest.foldlM State.step (.complete (.arr ((v :: done).reverse ++ w :: items)) frames) := by
          rw [List.reverse_cons, List.append_assoc, List.singleton_append]

/-- The tokens behind a member add the other members and end the object. -/
theorem foldlM_members : ∀ (members : List (Str × Json)) (key : Str) (v : Json) (done : List (Str × Json))
    (frames : List Frame) (rest : List Token),
    (memberTokens members ++ rest).foldlM State.step (.complete v (.object done key :: frames)) =
      rest.foldlM State.step (.complete (.obj (((key, v) :: done).reverse ++ members)) frames)
  | [], key, v, done, frames, rest => by
    rw [List.append_nil]
    rfl
  | (key', w) :: members, key, v, done, frames, rest => by
    rw [memberTokens, List.cons_append, List.cons_append, List.cons_append, List.append_assoc]
    calc (Token.comma :: .str key' :: .colon :: (tokens w ++ (memberTokens members ++ rest))).foldlM State.step
            (.complete v (.object done key :: frames))
        = (tokens w ++ (memberTokens members ++ rest)).foldlM State.step
            (.value (.object ((key, v) :: done) key' :: frames)) := rfl
      _ = (memberTokens members ++ rest).foldlM State.step
            (.complete w (.object ((key, v) :: done) key' :: frames)) :=
          foldlM_tokens w _ (State.beginsValue_value _)
      _ = rest.foldlM State.step (.complete (.obj (((key', w) :: (key, v) :: done).reverse ++ members)) frames) :=
          foldlM_members members key' w ((key, v) :: done) frames rest
      _ = rest.foldlM State.step (.complete (.obj (((key, v) :: done).reverse ++ (key', w) :: members)) frames) := by
          rw [List.reverse_cons, List.append_assoc, List.singleton_append]

end

/-- **Every text of a value is read as the value.** -/
theorem read_of_spelling {v : Json} {s : Text} (h : Spelling v s) : read? s = some v := by
  have happart : NumbersApart (tokens v ++ []) := numbersApart_tokens v trivial Bool.false_ne_true
  rw [List.append_nil] at happart
  have hstates := foldlM_tokens v [] (State.beginsValue_value [])
  rw [List.append_nil] at hstates
  rw [read?, tokens_of_layout h happart]
  show (List.foldlM State.step (.value []) (tokens v)).bind State.value? = some v
  rw [hstates]
  rfl

/-! ## The writer -/

theorem Layout.str_writeStr {ts : List Token} {s : Text} (v : Str) (h : Layout ts s) :
    Layout (.str v :: ts) (writeStr v ++ s) := by
  obtain ⟨w, hw, hv⟩ := strSpelling_writeStr v
  rw [hw]
  exact .token (.str hv) h

mutual

theorem layout_write : ∀ (v : Json) {ts : List Token} {s : Text}, Layout ts s → Layout (tokens v ++ ts) (write v ++ s)
  | .null, _, _, h => .token .null h
  | .bool true, _, _, h => .token .yes h
  | .bool false, _, _, h => .token .no h
  | .num x, _, _, h => .token (.num x) h
  | .str v, _, _, h => h.str_writeStr v
  | .arr [], _, _, h => (Layout.token .beginArray (.token .endArray h) :)
  | .arr (v :: items), _, _, h => by
    rw [tokens, write]
    simp only [List.cons_append, List.append_assoc]
    exact .token .beginArray (layout_write v (layout_writeItems items h))
  | .obj [], _, _, h => (Layout.token .beginObject (.token .endObject h) :)
  | .obj ((key, v) :: members), _, _, h => by
    rw [tokens, write]
    simp only [List.cons_append, List.append_assoc]
    exact .token .beginObject (.str_writeStr key (.token .colon (layout_write v (layout_writeMembers members h))))

theorem layout_writeItems : ∀ (items : List Json) {ts : List Token} {s : Text}, Layout ts s →
    Layout (itemTokens items ++ ts) (writeItems items ++ s)
  | [], _, _, h => .token .endArray h
  | v :: items, _, _, h => by
    rw [itemTokens, writeItems]
    simp only [List.cons_append, List.append_assoc]
    exact .token .comma (layout_write v (layout_writeItems items h))

theorem layout_writeMembers : ∀ (members : List (Str × Json)) {ts : List Token} {s : Text}, Layout ts s →
    Layout (memberTokens members ++ ts) (writeMembers members ++ s)
  | [], _, _, h => .token .endObject h
  | (key, v) :: members, _, _, h => by
    rw [memberTokens, writeMembers]
    simp only [List.cons_append, List.append_assoc]
    exact .token .comma (.str_writeStr key (.token .colon (layout_write v (layout_writeMembers members h))))

end

/-- What `write` gives is a text of the value. -/
theorem spelling_write (v : Json) : Spelling v (write v) := by
  have h := layout_write v .nil
  rwa [List.append_nil, List.append_nil] at h

theorem read_write (v : Json) : read? v.write = some v :=
  read_of_spelling (spelling_write v)

end ApiReference.Json
