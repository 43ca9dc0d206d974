import ApiReference.Text.WhiteSpace

/-!
# Scanning the front of a text

Small readers that look at the front of a text and answer what remains behind the part they have read:

- `after?` and `afterFolded?` read a given spelling, exactly or without regard to case;
- `past?` reads up to a given character and that character;
- `upTo?` reads as little as possible in front of a place where another reader succeeds, and keeps what it passed.

Each has a lemma about the length of what remains (`length_after`, `length_past_lt`, `length_upTo`), so that a
scan of the whole text ends.
-/

namespace ApiReference.Text

/-! ## Spellings -/

/-- The character that stands for all that differ from it in case only: small for capital in ASCII, `s` for the
long s and `k` for the Kelvin sign. No other character outside ASCII folds to one of ASCII. -/
def foldCase (c : Char) : Char :=
  if c = '\u017F' then 's' else if c = '\u212A' then 'k' else c.toLower

/-- The text behind `spelling`, if `s` begins with it once its characters are replaced by `fold`. -/
def behind? (fold : Char → Char) : (spelling s : Text) → Option Text
  | [], s => some s
  | _ :: _, [] => none
  | p :: spelling, c :: s => if fold c = p then behind? fold spelling s else none

/-- The text behind `spelling`, if `s` begins with it. -/
def after? (spelling s : Text) : Option Text :=
  behind? id spelling s

/-- The text behind `spelling`, given in small letters, if `s` begins with it in letters of any case. -/
def afterFolded? (spelling s : Text) : Option Text :=
  behind? foldCase spelling s

theorem length_behind {fold : Char → Char} :
    ∀ {spelling s rest : Text}, behind? fold spelling s = some rest → s.length = spelling.length + rest.length
  | [], _, _, h => by simp_all [behind?]
  | _ :: _, [], _, h => by simp [behind?] at h
  | p :: spelling, c :: s, rest, h => by
    simp only [behind?] at h
    split at h
    · have := length_behind h
      simp only [List.length_cons]
      omega
    · simp at h

theorem length_after {spelling s rest : Text} (h : after? spelling s = some rest) :
    s.length = spelling.length + rest.length :=
  length_behind h

theorem length_afterFolded {spelling s rest : Text} (h : afterFolded? spelling s = some rest) :
    s.length = spelling.length + rest.length :=
  length_behind h

/-! ## Up to a place -/

/-- The text behind the first `stop`. -/
def past? (stop : Char) : Text → Option Text
  | [] => none
  | c :: s => if c = stop then some s else past? stop s

/-- The shortest front of a text behind which `close` succeeds, and what `close` leaves. -/
def upTo? (close : Text → Option Text) : Text → Option (Text × Text)
  | [] => (close []).map ([], ·)
  | c :: s =>
    match close (c :: s) with
    | some rest => some ([], rest)
    | none => (upTo? close s).map fun (front, rest) => (c :: front, rest)

theorem length_past_lt {stop : Char} : ∀ {s rest : Text}, past? stop s = some rest → rest.length < s.length
  | [], _, h => by simp [past?] at h
  | c :: s, rest, h => by
    simp only [past?] at h
    split at h
    · simp_all
    · have := length_past_lt h
      simp only [List.length_cons]
      omega

theorem length_upTo {close : Text → Option Text}
    (hclose : ∀ {s rest : Text}, close s = some rest → rest.length ≤ s.length) :
    ∀ {s front rest : Text}, upTo? close s = some (front, rest) → front.length + rest.length ≤ s.length
  | [], _, _, h => by
    simp only [upTo?, Option.map_eq_some_iff, Prod.mk.injEq] at h
    obtain ⟨r, hr, rfl, rfl⟩ := h
    simpa using hclose hr
  | c :: s, front, rest, h => by
    simp only [upTo?] at h
    split at h
    · rename_i r hr
      obtain ⟨rfl, rfl⟩ : [] = front ∧ r = rest := by simpa using h
      simpa using hclose hr
    · simp only [Option.map_eq_some_iff, Prod.mk.injEq] at h
      obtain ⟨⟨front', rest'⟩, h', rfl, rfl⟩ := h
      have := length_upTo hclose h'
      simp only [List.length_cons]
      omega

end ApiReference.Text
