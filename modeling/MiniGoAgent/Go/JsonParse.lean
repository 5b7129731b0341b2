/-
# `Go.JsonParse` — the value of a document

`json.Unmarshal` reads the text twice: the scanner decides whether it is valid, and
the decoder takes the value of a text it need not doubt any more.  On the text of a
document the decoder gives the value of the document (`parse_text`), and the fuel it
is run with is never short.

A string is decoded up to the quote that ends it and without a look at what follows,
so what a raw text decodes to is a function of the raw text (`decodeRaw`).
-/
import MiniGoAgent.Go.JsonText

namespace Go.Json

variable {raw rest t ws : Str} {fuel : Nat} {c : UInt8}

/-! ## Strings -/

def decodeRaw (raw : Str) : Str :=
  ((unquote (raw.length + 1) (raw ++ [byte '"'])).map Prod.fst).getD []

theorem IsRaw.drop_high {x : Str} (hx : ∀ b ∈ x, 0x80 ≤ b) (h : IsRaw (x ++ raw)) : IsRaw raw := by
  induction x with
  | nil => exact h
  | cons b x ih =>
    obtain ⟨hb, hx⟩ := List.forall_mem_cons.mp hx
    refine ih hx ?_
    generalize htail : x ++ raw = tail at h
    rw [List.cons_append, htail] at h
    cases h with
    | plain _ _ _ hraw => exact hraw
    | escape | unicode => exact absurd hb (by decide)

theorem hex4_cons {a b d : UInt8} (ha : (unhex a).isSome = true) (hb : (unhex b).isSome = true)
    (hc : (unhex c).isSome = true) (hd : (unhex d).isSome = true) :
    ∃ n, ∀ t, hex4 (a :: b :: c :: d :: t) = some (n, t) := by
  obtain ⟨w, hw⟩ := Option.isSome_iff_exists.mp ha
  obtain ⟨x, hx⟩ := Option.isSome_iff_exists.mp hb
  obtain ⟨y, hy⟩ := Option.isSome_iff_exists.mp hc
  obtain ⟨z, hz⟩ := Option.isSome_iff_exists.mp hd
  refine ⟨((w * 16 + x) * 16 + y) * 16 + z, ?_⟩
  intro t
  simp [hex4, hw, hx, hy, hz]

/-- The rune of a high half `hi` and the escape behind it, if that is a low half. -/
def lowHalf (hi : Nat) (s : Str) : Option (Nat × Str) :=
  if 0xD800 ≤ hi ∧ hi < 0xDC00 then
    match s with
    | b :: u :: s' =>
      if b == byte '\\' && u == byte 'u' then
        match hex4 s' with
        | some (lo, s'') =>
          if 0xDC00 ≤ lo ∧ lo < 0xE000 then
            some ((hi - 0xD800) * 0x400 + (lo - 0xDC00) + 0x10000, s'')
          else none
        | none => none
      else none
    | _ => none
  else none

theorem unquote_unicode (fuel : Nat) {a b d : UInt8} {hi : Nat} {s : Str}
    (h : hex4 (a :: b :: c :: d :: s) = some (hi, s)) :
    unquote (fuel + 1) (byte '\\' :: byte 'u' :: a :: b :: c :: d :: s) =
      (unquote fuel ((lowHalf hi s).getD (hi, s)).2).map
        (fun (t, rest) => (encodeRune ((lowHalf hi s).getD (hi, s)).1 ++ t, rest)) := by
  have hq : (byte '\\' == byte '"') = false := by decide
  simp only [unquote, hq, h]
  rfl

def joinHalves (hi lo : Nat) : Nat := (hi - 0xD800) * 0x400 + (lo - 0xDC00) + 0x10000

/-- What the decoder makes of a piece of a string in one round. -/
inductive Chunk : Str → Str → Prop
  | rune {x : Str} (hx : IsRune x)
      (hplain : ∀ c ∈ x, (c == byte '"') = false ∧ (c == byte '\\') = false) : Chunk x x
  | stray {c : UInt8} (hc : 0x80 ≤ c) : Chunk [c] (encodeRune 0xFFFD)
  | escape {e : UInt8} (he : Scanner.isEscape e = true) : Chunk [byte '\\', e] [unescape e]
  | unicode {a b c d : UInt8} {n : Nat} (hn : ∀ t, hex4 (a :: b :: c :: d :: t) = some (n, t)) :
      Chunk [byte '\\', byte 'u', a, b, c, d] (encodeRune n)
  | pair {a b c d a' b' c' d' : UInt8} {hi lo : Nat}
      (hhi : ∀ t, hex4 (a :: b :: c :: d :: t) = some (hi, t))
      (hlo : ∀ t, hex4 (a' :: b' :: c' :: d' :: t) = some (lo, t))
      (hhigh : 0xD800 ≤ hi ∧ hi < 0xDC00) (hlow : 0xDC00 ≤ lo ∧ lo < 0xE000) :
      Chunk [byte '\\', byte 'u', a, b, c, d, byte '\\', byte 'u', a', b', c', d']
        (encodeRune (joinHalves hi lo))

/-- The string is read as `t`, round by round. -/
inductive Decodes : Str → Str → Prop
  | nil : Decodes [] []
  | chunk {x u raw t : Str} (hx : Chunk x u) (h : Decodes raw t) : Decodes (x ++ raw) (u ++ t)

theorem ne_u_of_isEscape {e : UInt8} (he : Scanner.isEscape e = true) :
    (e == byte 'u') = false := by
  rw [beq_eq_false_iff_ne]
  rintro rfl
  exact absurd he (by decide)

theorem lowHalf_raw (hi : Nat) (h : IsRaw raw) :
    (∀ rest, lowHalf hi (raw ++ byte '"' :: rest) = none) ∨
      ∃ a b c d lo raw', raw = [byte '\\', byte 'u', a, b, c, d] ++ raw' ∧ IsRaw raw' ∧
        (∀ t, hex4 (a :: b :: c :: d :: t) = some (lo, t)) ∧ (0xD800 ≤ hi ∧ hi < 0xDC00) ∧
        (0xDC00 ≤ lo ∧ lo < 0xE000) ∧
        ∀ rest, lowHalf hi (raw ++ byte '"' :: rest) =
          some (joinHalves hi lo, raw' ++ byte '"' :: rest) := by
  by_cases hhi : 0xD800 ≤ hi ∧ hi < 0xDC00
  · cases h with
    | nil =>
      refine Or.inl ?_
      intro rest
      cases rest with
      | nil => simp [lowHalf]
      | cons u rest =>
        have hq : (byte '"' == byte '\\') = false := by decide
        simp [lowHalf, hq]
    | @plain c raw _ hback _ _ =>
      refine Or.inl ?_
      intro rest
      cases raw <;> simp [lowHalf, hback]
    | @escape e raw he _ =>
      refine Or.inl ?_
      intro rest
      simp [lowHalf, ne_u_of_isEscape he]
    | @unicode a b c d raw ha hb hc hd hraw =>
      obtain ⟨lo, hlo⟩ := hex4_cons ha hb hc hd
      by_cases hlow : 0xDC00 ≤ lo ∧ lo < 0xE000
      · refine Or.inr ⟨a, b, c, d, lo, raw, rfl, hraw, hlo, hhi, hlow, ?_⟩
        intro rest
        simp [lowHalf, joinHalves, hhi, hlo, hlow]
      · refine Or.inl ?_
        intro rest
        simp only [lowHalf, List.cons_append, hlo, if_neg hlow]
        simp
  · refine Or.inl ?_
    intro rest
    rw [lowHalf.eq_def, if_neg hhi]

/-- The decoder stops at the quote behind a raw text. -/
def Unquotes (raw t : Str) : Prop :=
  ∀ fuel rest, raw.length + 1 ≤ fuel → unquote fuel (raw ++ byte '"' :: rest) = some (t, rest)

theorem Unquotes.step {x u : Str} (h : Unquotes raw t)
    (hlen : raw.length + 1 ≤ (x ++ raw).length)
    (hstep : ∀ fuel rest, unquote (fuel + 1) (x ++ (raw ++ byte '"' :: rest)) =
      (unquote fuel (raw ++ byte '"' :: rest)).map (fun (t, r) => (u ++ t, r))) :
    Unquotes (x ++ raw) (u ++ t) := by
  intro fuel rest hfuel
  obtain ⟨fuel, rfl⟩ : ∃ n, fuel = n + 1 := ⟨fuel - 1, by omega⟩
  rw [List.append_assoc, hstep, h fuel rest (by omega)]
  rfl

/-- One round of the decoder over the text of a rune. -/
def Rounds (x u : Str) : Prop :=
  ∀ fuel more, unquote (fuel + 1) (x ++ more) =
    (unquote fuel more).map (fun (t, r) => (u ++ t, r))

theorem rounds_escape {e : UInt8} (he : (e == byte 'u') = false) :
    Rounds [byte '\\', e] [unescape e] := by
  intro fuel more
  have hq : (byte '\\' == byte '"') = false := by decide
  simp only [List.cons_append, List.nil_append, unquote, hq, he]
  rfl

theorem rounds_rune {x : Str} (h : IsRune x) (hquote : x.head? ≠ some (byte '"'))
    (hback : x.head? ≠ some (byte '\\')) : Rounds x x := by
  intro fuel more
  have hlen := h.runeLen_append more
  obtain ⟨hne, _⟩ := h
  cases x with
  | nil => exact absurd rfl hne
  | cons c rest =>
    have hq : (c == byte '"') = false := by
      rw [beq_eq_false_iff_ne]
      rintro rfl
      exact hquote rfl
    have hb : (c == byte '\\') = false := by
      rw [beq_eq_false_iff_ne]
      rintro rfl
      exact hback rfl
    rw [List.cons_append, List.length_cons] at hlen
    simp only [List.cons_append, unquote, hq, hb, hlen, List.drop_left, List.take_left]
    rfl

theorem unquotes_nil : Unquotes [] [] := by
  intro fuel rest hfuel
  obtain ⟨fuel, rfl⟩ : ∃ n, fuel = n + 1 := ⟨fuel - 1, by simp at hfuel; omega⟩
  simp [unquote]

theorem unquotes_plain (hquote : (c == byte '"') = false)
    (hback : (c == byte '\\') = false) (h : IsRaw raw)
    (ih : ∀ raw', raw'.length ≤ raw.length → IsRaw raw' → ∃ t, Unquotes raw' t ∧ Decodes raw' t) :
    ∃ t, Unquotes (c :: raw) t ∧ Decodes (c :: raw) t := by
  have hlen : ∀ rest, runeLen (c :: (raw ++ byte '"' :: rest)) = runeLen (c :: raw) :=
    fun rest => runeLen_append_ascii (by decide) c raw rest
  cases hk : runeLen (c :: raw) with
  | zero =>
    obtain ⟨t, ht, hdec⟩ := ih raw (Nat.le_refl _) h
    have hc : 0x80 ≤ c := by
      rw [← UInt8.not_lt]
      intro hc
      simp [runeLen, hc] at hk
    refine ⟨_, ht.step (x := [c]) (u := encodeRune 0xFFFD) (by simp) ?_, .chunk (.stray hc) hdec⟩
    intro fuel rest
    have hk' := (hlen rest).trans hk
    simp only [List.cons_append, List.nil_append, unquote, hquote, hback, hk']
    rfl
  | succ n =>
    have htail : runeTail (c :: raw) = n := by rw [runeTail, hk]; rfl
    have hn : n ≤ raw.length := htail ▸ runeTail_le c raw
    have hhigh : ∀ b ∈ raw.take n, 0x80 ≤ b := by
      intro b hb
      rw [← htail] at hb
      exact le_of_mem_runeTail hb
    have hplain : ∀ b ∈ c :: raw.take n, (b == byte '"') = false ∧ (b == byte '\\') = false := by
      refine List.forall_mem_cons.mpr ⟨⟨hquote, hback⟩, ?_⟩
      intro b hb
      exact ⟨ne_of_high (hhigh b hb) (by decide), ne_of_high (hhigh b hb) (by decide)⟩
    have hrune : IsRune (c :: raw.take n) := by
      have htake := runeLen_take hk []
      rw [List.append_nil] at htake
      exact ⟨List.cons_ne_nil _ _, by simp [htake, Nat.min_eq_left hn]⟩
    obtain ⟨t, ht, hdec⟩ := ih (raw.drop n) (by simp)
      (IsRaw.drop_high hhigh (by rwa [List.take_append_drop]))
    have hsplit : c :: raw = (c :: raw.take n) ++ raw.drop n := by simp
    rw [hsplit]
    refine ⟨_, ht.step (by simp) ?_, .chunk (.rune hrune hplain) hdec⟩
    intro fuel rest
    exact rounds_rune hrune (by simpa using hquote) (by simpa using hback) fuel _

theorem exists_unquotes (n : Nat) :
    ∀ raw : Str, raw.length ≤ n → IsRaw raw → ∃ t, Unquotes raw t ∧ Decodes raw t := by
  induction n with
  | zero =>
    intro raw hlen _
    obtain rfl := List.eq_nil_of_length_eq_zero (Nat.le_zero.mp hlen)
    exact ⟨[], unquotes_nil, .nil⟩
  | succ n ih =>
    intro raw hlen h
    cases h with
    | nil => exact ⟨[], unquotes_nil, .nil⟩
    | plain hquote hback _ hraw =>
      simp only [List.length_cons] at hlen
      exact unquotes_plain hquote hback hraw fun raw' hle => ih raw' (by omega)
    | @escape e raw he hraw =>
      simp only [List.length_cons] at hlen
      obtain ⟨t, ht, hdec⟩ := ih raw (by omega) hraw
      exact ⟨_, ht.step (by simp) (fun fuel rest => rounds_escape (ne_u_of_isEscape he) fuel _),
        .chunk (.escape he) hdec⟩
    | @unicode a b c d raw ha hb hc hd hraw =>
      simp only [List.length_cons] at hlen
      obtain ⟨hi, hhi⟩ := hex4_cons ha hb hc hd
      rcases lowHalf_raw hi hraw with
        hnone | ⟨a', b', c', d', lo, raw', rfl, hraw', hlo, hhigh, hlow, hsome⟩
      · obtain ⟨t, ht, hdec⟩ := ih raw (by omega) hraw
        refine ⟨_, ht.step (x := [byte '\\', byte 'u', a, b, c, d]) (u := encodeRune hi)
          (by simp) ?_, .chunk (.unicode hhi) hdec⟩
        intro fuel rest
        have h := unquote_unicode fuel (hhi (raw ++ byte '"' :: rest))
        rw [hnone rest] at h
        exact h
      · rw [List.length_append] at hlen
        obtain ⟨t, ht, hdec⟩ := ih raw' (by omega) hraw'
        refine ⟨encodeRune (joinHalves hi lo) ++ t, ?_, .chunk (.pair hhi hlo hhigh hlow) hdec⟩
        intro fuel rest hfuel
        simp only [List.length_cons, List.length_append] at hfuel
        obtain ⟨fuel, rfl⟩ : ∃ n, fuel = n + 1 := ⟨fuel - 1, by omega⟩
        have h := unquote_unicode fuel
          (hhi ([byte '\\', byte 'u', a', b', c', d'] ++ raw' ++ byte '"' :: rest))
        rw [hsome rest, Option.getD_some, ht fuel rest (by omega)] at h
        exact h

theorem decodeRaw_eq (h : Unquotes raw t) : decodeRaw raw = t := by
  rw [decodeRaw, h (raw.length + 1) [] (Nat.le_refl _)]
  rfl

theorem unquote_raw (h : IsRaw raw) (hfuel : raw.length + 1 ≤ fuel) (rest : Str) :
    unquote fuel (raw ++ byte '"' :: rest) = some (decodeRaw raw, rest) := by
  obtain ⟨t, ht, _⟩ := exists_unquotes raw.length raw (Nat.le_refl _) h
  rw [decodeRaw_eq ht, ht fuel rest hfuel]

theorem IsRaw.decodes (h : IsRaw raw) : Decodes raw (decodeRaw raw) := by
  obtain ⟨t, ht, hdec⟩ := exists_unquotes raw.length raw (Nat.le_refl _) h
  rwa [decodeRaw_eq ht]

/-! ## Values -/

def Word.value : Word → Value
  | .null => .null
  | .true => .bool Bool.true
  | .false => .bool Bool.false

def Head.name (h : Head) : Str := (h.key.map (fun k => decodeRaw k.raw)).getD []

mutual

def Doc.value : Doc → Value
  | .word w => w.value
  | .num t => .num t
  | .str raw => .str (decodeRaw raw)
  | .node .arr _ items => .arr (itemValues items)
  | .node .obj _ items => .obj (itemMembers items)

def itemValues : List (Head × Doc × Str) → List Value
  | [] => []
  | (_, d, _) :: rest => d.value :: itemValues rest

def itemMembers : List (Head × Doc × Str) → List (Str × Value)
  | [] => []
  | (h, d, _) :: rest => (h.name, d.value) :: itemMembers rest

end

/-! ## The decoder on a document -/

theorem skipSpace_blank (h : IsBlank ws) (t : Str) : skipSpace (ws ++ t) = skipSpace t := by
  induction ws with
  | nil => rfl
  | cons c ws ih =>
    obtain ⟨hc, hws⟩ := isBlank_cons.mp h
    rw [List.cons_append, skipSpace, List.dropWhile_cons_of_pos hc]
    exact ih hws

theorem skipSpace_cons (h : isSpace c = false) (t : Str) : skipSpace (c :: t) = c :: t :=
  List.dropWhile_cons_of_neg (by simp [h])

theorem parseValue_blank (fuel : Nat) (h : IsBlank ws) (t : Str) :
    parseValue fuel (ws ++ t) = parseValue fuel t := by
  cases fuel with
  | zero => rfl
  | succ fuel => rw [parseValue, parseValue, skipSpace_blank h]

theorem parseElements_blank (fuel : Nat) (h : IsBlank ws) (t : Str) :
    parseElements fuel (ws ++ t) = parseElements fuel t := by
  cases fuel with
  | zero => rfl
  | succ fuel => rw [parseElements, parseElements, skipSpace_blank h]

theorem parseMembers_blank (fuel : Nat) (h : IsBlank ws) (t : Str) :
    parseMembers fuel (ws ++ t) = parseMembers fuel t := by
  cases fuel with
  | zero => rfl
  | succ fuel => rw [parseMembers, parseMembers, skipSpace_blank h]

/-- The text does not go on with a byte of a number. -/
def Stops (rest : Str) : Prop := ∀ c ∈ rest.head?, isNumByte c = false

theorem stops_cons (h : isNumByte c = false) (t : Str) : Stops (c :: t) := by
  intro b hb
  cases hb
  exact h

theorem Stops.blank (hws : IsBlank ws) (h : Stops rest) : Stops (ws ++ rest) := by
  cases ws with
  | nil => exact h
  | cons c ws => exact stops_cons (isNumByte_of_isSpace (isBlank_cons.mp hws).1) _

theorem takeWhile_append_stops (ht : ∀ c ∈ t, isNumByte c = true) (hrest : Stops rest) :
    (t ++ rest).takeWhile isNumByte = t ∧ (t ++ rest).dropWhile isNumByte = rest := by
  rw [List.takeWhile_append_of_pos ht, List.dropWhile_append_of_pos ht]
  cases rest with
  | nil => simp
  | cons c rest =>
    have hc : ¬ isNumByte c = true := by rw [hrest c rfl]; simp
    rw [List.takeWhile_cons_of_neg hc, List.dropWhile_cons_of_neg hc]
    simp

theorem parseValue_number (h : IsNumber t) (fuel : Nat)
    (hrest : Stops rest) : parseValue (fuel + 1) (t ++ rest) = some (.num t, rest) := by
  obtain ⟨hne, hbytes, _⟩ := h
  cases t with
  | nil => exact absurd rfl hne
  | cons c t =>
    obtain ⟨hc, ht⟩ := List.forall_mem_cons.mp hbytes
    have hspace : isSpace c = false := isSpace_of_isNumByte hc
    have hother : ∀ b, isNumByte b = false → (c == b) = false := fun b hb => ne_of_isNumByte hc hb
    obtain ⟨htake, hdrop⟩ := takeWhile_append_stops ht hrest
    rw [List.cons_append, parseValue, skipSpace_cons hspace]
    simp only [hother (byte '{') (by decide), hother (byte '[') (by decide),
      hother (byte '"') (by decide), hother (byte 't') (by decide), hother (byte 'f') (by decide),
      hother (byte 'n') (by decide), htake, hdrop]
    rfl

theorem parseValue_word (w : Word) (fuel : Nat) (rest : Str) :
    parseValue (fuel + 1) (w.text ++ rest) = some (w.value, rest) := by
  cases w <;> rfl

theorem parseValue_str (h : IsRaw raw) (hfuel : raw.length + 1 ≤ fuel) (rest : Str) :
    parseValue (fuel + 1) (quotedRaw raw ++ rest) = some (.str (decodeRaw raw), rest) := by
  rw [quotedRaw, List.cons_append, List.append_assoc, List.singleton_append, parseValue,
    skipSpace_cons (by decide)]
  have hbrace : (byte '"' == byte '{') = false := by decide
  have hbracket : (byte '"' == byte '[') = false := by decide
  simp only [hbrace, hbracket, unquote_raw h hfuel rest]
  rfl

/-- An element and what follows it. -/
def parseElement (fuel : Nat) (s : Str) : Option (List Value × Str) :=
  match parseValue fuel s with
  | none => none
  | some (v, rest) => (parseElements fuel rest).map (fun (vs, rest) => (v :: vs, rest))

theorem parseElements_comma (fuel : Nat) (s : Str) :
    parseElements (fuel + 1) (byte ',' :: s) = parseElement fuel s := by
  rw [parseElements, skipSpace_cons (by decide)]
  rfl

theorem parseElements_first (fuel : Nat) (hws : IsBlank ws) (hspace : isSpace c = false)
    (hclose : (c == byte ']') = false) (hcomma : (c == byte ',') = false) :
    parseElements fuel (ws ++ c :: t) = parseElements fuel (byte ',' :: (ws ++ c :: t)) := by
  rw [parseElements_blank fuel hws]
  cases fuel with
  | zero => rfl
  | succ fuel =>
    rw [parseElements_comma, parseElement, parseValue_blank fuel hws, parseElements,
      skipSpace_cons hspace]
    simp only [hclose, hcomma]
    rfl

/-- A member and what follows it, from behind the opening quote of its key. -/
def parseMember (fuel : Nat) (s : Str) : Option (List (Str × Value) × Str) :=
  match unquote fuel s with
  | none => none
  | some (k, rest) =>
    match parseValue fuel ((skipSpace rest).drop 1) with
    | none => none
    | some (v, rest) => (parseMembers fuel rest).map (fun (ms, rest) => ((k, v) :: ms, rest))

theorem parseMembers_comma (fuel : Nat) (s : Str) :
    parseMembers (fuel + 1) (byte ',' :: s) = parseMember fuel ((skipSpace s).drop 1) := by
  rw [parseMembers, skipSpace_cons (by decide)]
  rfl

theorem parseMembers_first (fuel : Nat) (hws : IsBlank ws) :
    parseMembers fuel (ws ++ byte '"' :: t) =
      parseMembers fuel (byte ',' :: (ws ++ byte '"' :: t)) := by
  rw [parseMembers_blank fuel hws]
  cases fuel with
  | zero => rfl
  | succ fuel =>
    rw [parseMembers_comma, skipSpace_blank hws, skipSpace_cons (by decide), parseMembers,
      skipSpace_cons (by decide)]
    rfl

theorem Head.text_arr {h : Head} (hwf : h.WF .arr) : IsBlank h.text := by
  obtain ⟨before, key⟩ := h
  obtain ⟨hbefore, hkey⟩ := hwf
  cases key with
  | some k => exact absurd hkey id
  | none => simpa [Head.text] using hbefore

theorem Head.text_obj {h : Head} (hwf : h.WF .obj) :
    ∃ k : Key, k.WF ∧ IsBlank h.before ∧ h.name = decodeRaw k.raw ∧
      h.text = h.before ++ byte '"' :: (k.raw ++ byte '"' :: (k.after ++ byte ':' :: k.gap)) := by
  obtain ⟨before, key⟩ := h
  obtain ⟨hbefore, hkey⟩ := hwf
  cases key with
  | none => exact absurd hkey id
  | some k => exact ⟨k, hkey, hbefore, rfl, by simp [Head.text, Key.text, quotedRaw]⟩

theorem Doc.text_length_pos {d : Doc} (h : d.WF) : 1 ≤ d.text.length := by
  obtain ⟨c, t, htext, _⟩ := d.text_start h
  rw [htext]
  simp

theorem joinTail_cons (t : Str) (ts : List Str) (s : Str) :
    joinTail (t :: ts) ++ s = byte ',' :: (t ++ (joinTail ts ++ s)) := by
  simp [joinTail]

theorem stops_joinTail (ts : List Str) (hc : isNumByte c = false) (s : Str) :
    Stops (joinTail ts ++ c :: s) := by
  cases ts with
  | nil => exact stops_cons hc s
  | cons t ts =>
    rw [joinTail_cons]
    exact stops_cons (by decide) _

theorem parseElements_of_tail {space : Str} {items : List Item}
    (hwf : (Doc.node .arr space items).WF)
    (hfuel : (space ++ joinComma (itemTexts items)).length + 1 ≤ fuel)
    (htail : 1 ≤ fuel → (joinTail (itemTexts items)).length ≤ fuel →
      parseElements fuel (joinTail (itemTexts items) ++ byte ']' :: rest) =
        some (itemValues items, rest)) :
    parseElements fuel (space ++ (joinComma (itemTexts items) ++ byte ']' :: rest)) =
      some (itemValues items, rest) := by
  obtain ⟨hspace, hno, hitems⟩ := hwf
  rw [List.length_append] at hfuel
  cases items with
  | nil =>
    rw [parseElements_blank fuel hspace]
    exact htail (by omega) (by simp [itemTexts, joinTail])
  | cons it items =>
    have hne : it :: items ≠ [] := List.cons_ne_nil it items
    rw [joinTail_itemTexts hne] at htail
    rw [hno hne, List.nil_append, ← htail (by omega) (by rw [List.length_cons]; omega)]
    obtain ⟨h, d, after⟩ := it
    obtain ⟨⟨hhead, hd, _⟩, _⟩ := hitems
    obtain ⟨c, t, htext, hc, hclose, hcomma⟩ := d.text_start hd
    have hfirst : joinComma (itemTexts ((h, d, after) :: items)) ++ byte ']' :: rest =
        h.text ++ c :: (t ++ (after ++ (joinTail (itemTexts items) ++ byte ']' :: rest))) := by
      rw [itemTexts, joinComma_cons, htext]
      simp
    rw [List.cons_append, hfirst]
    exact parseElements_first fuel (Head.text_arr hhead) hc hclose hcomma

theorem parseMembers_of_tail {space : Str} {items : List Item}
    (hwf : (Doc.node .obj space items).WF)
    (hfuel : (space ++ joinComma (itemTexts items)).length + 1 ≤ fuel)
    (htail : 1 ≤ fuel → (joinTail (itemTexts items)).length ≤ fuel →
      parseMembers fuel (joinTail (itemTexts items) ++ byte '}' :: rest) =
        some (itemMembers items, rest)) :
    parseMembers fuel (space ++ (joinComma (itemTexts items) ++ byte '}' :: rest)) =
      some (itemMembers items, rest) := by
  obtain ⟨hspace, hno, hitems⟩ := hwf
  rw [List.length_append] at hfuel
  cases items with
  | nil =>
    rw [parseMembers_blank fuel hspace]
    exact htail (by omega) (by simp [itemTexts, joinTail])
  | cons it items =>
    have hne : it :: items ≠ [] := List.cons_ne_nil it items
    rw [joinTail_itemTexts hne] at htail
    rw [hno hne, List.nil_append, ← htail (by omega) (by rw [List.length_cons]; omega)]
    obtain ⟨h, d, after⟩ := it
    obtain ⟨⟨hhead, _, _⟩, _⟩ := hitems
    obtain ⟨k, _, hbefore, _, htext⟩ := Head.text_obj hhead
    have hfirst : joinComma (itemTexts ((h, d, after) :: items)) ++ byte '}' :: rest =
        h.before ++ byte '"' :: (k.raw ++ byte '"' :: (k.after ++ byte ':' :: (k.gap ++
          (d.text ++ (after ++ (joinTail (itemTexts items) ++ byte '}' :: rest)))))) := by
      rw [itemTexts, joinComma_cons, htext]
      simp
    rw [List.cons_append, hfirst]
    exact parseMembers_first fuel hbefore

theorem length_node (kind : Kind) (space : Str) (items : List Item) :
    (Doc.node kind space items).text.length =
      (space ++ joinComma (itemTexts items)).length + 2 := by
  simp [Doc.text]
  omega

mutual

theorem Doc.parseValue_text : (d : Doc) → d.WF → (fuel : Nat) → (rest : Str) →
    d.text.length ≤ fuel → Stops rest → parseValue fuel (d.text ++ rest) = some (d.value, rest)
  | d, h, 0, _, hfuel, _ => by
    have := d.text_length_pos h
    omega
  | .word w, _, fuel + 1, rest, _, _ => parseValue_word w fuel rest
  | .num t, h, fuel + 1, rest, _, hrest => parseValue_number h fuel hrest
  | .str raw, h, fuel + 1, rest, hfuel, _ => by
    refine parseValue_str h ?_ rest
    simp only [Doc.text, quotedRaw, List.length_cons, List.length_append, List.length_nil] at hfuel
    omega
  | .node .arr space items, h, fuel + 1, rest, hfuel, _ => by
    rw [length_node] at hfuel
    have hinner := parseElements_of_tail h (by omega)
      (parseElements_tail items h.2.2 fuel rest)
    rw [Doc.text, List.cons_append, parseValue, Kind.opening, skipSpace_cons (by decide),
      List.append_assoc, List.append_assoc, List.singleton_append]
    exact congrArg (Option.map (fun (xs, rest) => (Value.arr xs, rest))) hinner
  | .node .obj space items, h, fuel + 1, rest, hfuel, _ => by
    rw [length_node] at hfuel
    have hinner := parseMembers_of_tail h (by omega)
      (parseMembers_tail items h.2.2 fuel rest)
    rw [Doc.text, List.cons_append, parseValue, Kind.opening, skipSpace_cons (by decide),
      List.append_assoc, List.append_assoc, List.singleton_append]
    exact congrArg (Option.map (fun (ms, rest) => (Value.obj ms, rest))) hinner

theorem parseElements_tail : (items : List (Head × Doc × Str)) → ItemsWF .arr items →
    (fuel : Nat) → (rest : Str) → 1 ≤ fuel → (joinTail (itemTexts items)).length ≤ fuel →
    parseElements fuel (joinTail (itemTexts items) ++ byte ']' :: rest) =
      some (itemValues items, rest)
  | _, _, 0, _, hpos, _ => absurd hpos (by omega)
  | [], _, fuel + 1, rest, _, _ => by
    rw [itemTexts, joinTail, List.flatMap_nil, List.nil_append, parseElements,
      skipSpace_cons (by decide)]
    rfl
  | (h, d, after) :: items, hwf, fuel + 1, rest, _, hfuel => by
    obtain ⟨⟨hhead, hd, hafter⟩, hitems⟩ := hwf
    have hpos := d.text_length_pos hd
    simp only [itemTexts, joinTail, List.flatMap_cons, List.length_cons, List.length_append]
      at hfuel
    have hstops : Stops (after ++ (joinTail (itemTexts items) ++ byte ']' :: rest)) :=
      (stops_joinTail (itemTexts items) (by decide) rest).blank hafter
    have hvalue := Doc.parseValue_text d hd fuel _ (by omega) hstops
    have hrest := parseElements_tail items hitems fuel rest (by omega) (by rw [joinTail]; omega)
    rw [itemTexts, joinTail_cons, parseElements_comma, parseElement]
    simp only [List.append_assoc]
    rw [parseValue_blank fuel (Head.text_arr hhead), hvalue]
    simp only
    rw [parseElements_blank fuel hafter, hrest]
    rfl

theorem parseMembers_tail : (items : List (Head × Doc × Str)) → ItemsWF .obj items →
    (fuel : Nat) → (rest : Str) → 1 ≤ fuel → (joinTail (itemTexts items)).length ≤ fuel →
    parseMembers fuel (joinTail (itemTexts items) ++ byte '}' :: rest) =
      some (itemMembers items, rest)
  | _, _, 0, _, hpos, _ => absurd hpos (by omega)
  | [], _, fuel + 1, rest, _, _ => by
    rw [itemTexts, joinTail, List.flatMap_nil, List.nil_append, parseMembers,
      skipSpace_cons (by decide)]
    rfl
  | (h, d, after) :: items, hwf, fuel + 1, rest, _, hfuel => by
    obtain ⟨⟨hhead, hd, hafter⟩, hitems⟩ := hwf
    obtain ⟨k, hk, hbefore, hname, htext⟩ := Head.text_obj hhead
    have hpos := d.text_length_pos hd
    simp only [itemTexts, joinTail, List.flatMap_cons, List.length_cons, List.length_append, htext]
      at hfuel
    have hstops : Stops (after ++ (joinTail (itemTexts items) ++ byte '}' :: rest)) :=
      (stops_joinTail (itemTexts items) (by decide) rest).blank hafter
    have hvalue := Doc.parseValue_text d hd fuel _ (by omega) hstops
    have hrest := parseMembers_tail items hitems fuel rest (by omega) (by rw [joinTail]; omega)
    rw [itemTexts, joinTail_cons, parseMembers_comma, htext]
    simp only [List.append_assoc, List.cons_append]
    rw [skipSpace_blank hbefore, skipSpace_cons (by decide), List.drop_one, List.tail_cons,
      parseMember, unquote_raw hk.raw (by omega)]
    simp only
    rw [skipSpace_blank hk.after, skipSpace_cons (by decide), List.drop_one, List.tail_cons,
      parseValue_blank fuel hk.gap, hvalue]
    simp only
    rw [parseMembers_blank fuel hafter, hrest, itemMembers, hname]
    rfl

end

theorem parse_text {d : Doc} (h : d.WF) (hdepth : d.depth ≤ maxNestingDepth) {lead trail : Str}
    (hlead : IsBlank lead) (htrail : IsBlank trail) :
    parse (lead ++ (d.text ++ trail)) = some d.value := by
  have hstops : Stops trail := by
    rw [← List.append_nil trail]
    refine Stops.blank htrail ?_
    intro c hc
    cases hc
  rw [parse, if_pos (valid_text h hdepth hlead htrail), parseValue_blank _ hlead,
    d.parseValue_text h _ trail (by simp only [List.length_append]; omega) hstops]
  rfl

end Go.Json
