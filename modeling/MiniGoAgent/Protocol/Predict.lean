/-
# `Protocol.Predict` — remembering the types of texts (`content_predict.go`)

A `ContentPredictor` remembers the type of a text under the SHA-256 sum of its first 4096
bytes, while the heuristic that finds the type reads all of it.  So texts that begin alike
get the type of the one that came first: `predict_transparent_iff` says that the answers
are those of the heuristic exactly if such texts have one type, or `Invalidate` comes
between them.

The sum is any function with 32 bytes, taken to be injective on what is hashed.
-/
import MiniGoAgent.Go.Memo
import MiniGoAgent.Protocol.Detect

open Go

namespace MiniGoAgent

/-- `sha256.Sum256`. -/
structure Sha256 where
  sum : Str → Str
  length_sum : ∀ s, (sum s).length = 32

/-- `hex.EncodeToString` and the `%x` verb. -/
def hexEncode (s : Str) : Str := s.flatMap hexByte

theorem hexByte_injective {b c : UInt8} (h : hexByte b = hexByte c) : b = c := by
  have hread : ∀ b : UInt8, (hexByte b).map unhex = [some (b.toNat / 16), some (b.toNat % 16)] :=
    forall_byte (by decide +kernel)
  have hdigits := hread b
  rw [h, hread c] at hdigits
  simp only [List.cons.injEq, Option.some.injEq, and_true] at hdigits
  refine UInt8.toNat_inj.mp ?_
  omega

theorem hexEncode_injective : Function.Injective hexEncode := by
  intro s t h
  induction s generalizing t with
  | nil =>
    cases t with
    | nil => rfl
    | cons c t => cases h
  | cons b s ih =>
    cases t with
    | nil => cases h
    | cons c t =>
      rw [hexEncode, hexEncode, List.flatMap_cons, List.flatMap_cons] at h
      obtain ⟨hbyte, hrest⟩ := List.append_inj h rfl
      rw [hexByte_injective hbyte, ih hrest]

/-! ## The predictor -/

def sample (content : Str) : Str :=
  if 4096 < content.length then content.take 4096 else content

variable (sha : Sha256)

def contentHash (content : Str) : Str := hexEncode (sha.sum (sample content))

structure ContentPredictor where
  cache : Memo Str ContentType := Memo.empty
  enabled : Bool

def newContentPredictor (enabled : Bool) : ContentPredictor := { enabled }

namespace ContentPredictor

/-- `Predict`; the model is the heuristic. -/
def predict (p : ContentPredictor) (content : Str) : ContentPredictor × ContentType :=
  if !p.enabled then (p, detectContentTypeHeuristic content)
  else
    let (cache, ct) := p.cache.call (contentHash sha) detectContentTypeHeuristic content
    ({ p with cache }, ct)

def invalidate (p : ContentPredictor) (content : Str) : ContentPredictor :=
  { p with cache := p.cache.forget (contentHash sha) content }

/-- `Predict` is a call, `Invalidate` a deletion. -/
def step (p : ContentPredictor) : MemoOp Str → ContentPredictor
  | .call content => (p.predict sha content).1
  | .forget content => p.invalidate sha content

def run (p : ContentPredictor) (ops : List (MemoOp Str)) : ContentPredictor :=
  ops.foldl (step sha) p

theorem predict_enabled {p : ContentPredictor} (h : p.enabled = true) (content : Str) :
    p.predict sha content =
      ({ p with cache := (p.cache.call (contentHash sha) detectContentTypeHeuristic content).1 },
        (p.cache.call (contentHash sha) detectContentTypeHeuristic content).2) := by
  rw [predict, h]
  rfl

theorem run_enabled {p : ContentPredictor} (h : p.enabled = true) (ops : List (MemoOp Str)) :
    p.run sha ops =
      { p with cache := Memo.run (contentHash sha) detectContentTypeHeuristic p.cache ops } := by
  induction ops generalizing p with
  | nil => rfl
  | cons op ops ih =>
    cases op with
    | call content =>
      show (p.predict sha content).1.run sha ops = _
      rw [predict_enabled sha h]
      exact ih (p := { p with cache := _ }) h
    | forget content => exact ih (p := p.invalidate sha content) h

end ContentPredictor

/-! ## When the answers are those of the heuristic -/

/-- The sum tells the samples of the texts of the run apart. -/
def HashesApart (ops : List (MemoOp Str)) : Prop :=
  ∀ c c', (.call c ∈ ops ∨ .forget c ∈ ops) → (.call c' ∈ ops ∨ .forget c' ∈ ops) →
    sha.sum (sample c) = sha.sum (sample c') → sample c = sample c'

/-- Every `Predict` of a run on a new predictor gives the type the heuristic finds. -/
def Transparent (ops : List (MemoOp Str)) : Prop :=
  ∀ before content after, ops = before ++ .call content :: after →
    (((newContentPredictor true).run sha before).predict sha content).2 =
      detectContentTypeHeuristic content

/-- Texts with the same first 4096 bytes that are predicted without an `Invalidate` of
these in between have the same type. -/
def SamplesAgree (ops : List (MemoOp Str)) : Prop :=
  ∀ before c mid c' after, ops = before ++ .call c :: (mid ++ .call c' :: after) →
    sample c = sample c' → (∀ x, .forget x ∈ mid → sample x ≠ sample c) →
      detectContentTypeHeuristic c = detectContentTypeHeuristic c'

variable {sha} {ops : List (MemoOp Str)}

theorem transparent_iff_right :
    Transparent sha ops ↔ Memo.Right (contentHash sha) detectContentTypeHeuristic ops := by
  refine forall_congr' fun before => forall_congr' fun content => forall_congr' fun after =>
    imp_congr_right fun _ => ?_
  rw [ContentPredictor.run_enabled sha rfl, ContentPredictor.predict_enabled sha rfl]
  rfl

theorem HashesApart.contentHash_eq (h : HashesApart sha ops)
    {c c' : Str} (hc : .call c ∈ ops ∨ .forget c ∈ ops)
    (hc' : .call c' ∈ ops ∨ .forget c' ∈ ops) :
    contentHash sha c = contentHash sha c' ↔ sample c = sample c' := by
  constructor
  · intro heq
    exact h c c' hc hc' (hexEncode_injective heq)
  · intro heq
    rw [contentHash, contentHash, heq]

/-- **The prediction cache.**  The answers are those of the heuristic exactly if texts that
begin with the same 4096 bytes have the same type, unless `Invalidate` comes between
them. -/
theorem predict_transparent_iff (h : HashesApart sha ops) :
    Transparent sha ops ↔ SamplesAgree ops := by
  rw [transparent_iff_right, Memo.right_iff_consistent]
  refine forall_congr' fun before => forall_congr' fun c => forall_congr' fun mid =>
    forall_congr' fun c' => forall_congr' fun after => forall_congr' fun hops => ?_
  have hc : .call c ∈ ops ∨ .forget c ∈ ops := Or.inl (by rw [hops]; simp)
  have hc' : .call c' ∈ ops ∨ .forget c' ∈ ops := Or.inl (by rw [hops]; simp)
  rw [h.contentHash_eq hc hc']
  refine imp_congr_right fun _ => imp_congr_left ?_
  refine forall_congr' fun x => forall_congr' fun hx => not_congr ?_
  exact h.contentHash_eq (Or.inr (by rw [hops]; simp [hx])) hc

/-- A hash that is good enough for short texts: their first 32 bytes, filled up. -/
def padded : Sha256 where
  sum s := (s ++ List.replicate 32 0).take 32
  length_sum s := by
    rw [List.length_take, List.length_append, List.length_replicate]
    omega

/-- The same short text twice, with an `Invalidate` in between. -/
def twice : List (MemoOp Str) := [.call (lit "[1]"), .forget (lit "[1]"), .call (lit "[1]")]

theorem predict_transparent_invalidate :
    Transparent padded twice ↔ SamplesAgree twice := by
  refine predict_transparent_iff ?_
  have honly : ∀ c, .call c ∈ twice ∨ .forget c ∈ twice → c = lit "[1]" := by
    intro c hc
    simpa [twice] using hc
  intro c c' hc hc' _
  rw [honly c hc, honly c' hc']

/-! ## Texts that begin alike -/

/-- 4096 bytes in one line, beginning with a bracket. -/
def longLine : Str := byte '[' :: List.replicate 4095 (byte 'x')

/-- Another line that begins with a brace. -/
def withObject : Str := longLine ++ lit "\n\x7b"

theorem newline_notMem_longLine : newline ∉ longLine := by
  intro h
  rcases List.mem_cons.mp h with h | h
  · exact absurd h (by decide)
  · exact absurd (List.eq_of_mem_replicate h) (by decide)

theorem detect_longLine : detectContentTypeHeuristic longLine = .jsonArray := by
  have hback : longLine.reverse = byte 'x' :: (List.replicate 4094 (byte 'x') ++ [byte '[']) := by
    rw [longLine, List.reverse_cons, List.reverse_replicate]
    rfl
  have htrim : trimSpace longLine = longLine := by
    refine trimSpace_eq_self rfl ?_
    rw [hback]
    rfl
  have hnone : contains longLine (lit "\n") = false :=
    Bool.eq_false_iff.mpr fun h => newline_notMem_longLine (contains_byte_iff.mp h)
  rw [detectContentTypeHeuristic, htrim, hnone]
  rfl

theorem matchedFrom_le (matched : Nat) (lines : List Str) :
    matchedFrom matched lines ≤ matched + lines.length := by
  induction lines generalizing matched with
  | nil => exact Nat.le_refl _
  | cons line rest ih =>
    have hsame := ih matched
    have hnext := ih (matched + 1)
    rw [matchedFrom, List.length_cons]
    split
    · omega
    · split
      · omega
      · split
        · omega
        · omega

theorem detectFromContent_ne_jsonArray {content : Str}
    (h : contains (trimSpace content) (lit "\n\x7b") = true) :
    detectFromContent content ≠ .jsonArray := by
  rw [detectFromContent, h, Bool.not_true, Bool.and_false, if_neg Bool.false_ne_true]
  dsimp only
  split
  · exact fun heq => nomatch heq
  · split
    · exact fun heq => nomatch heq
    · split
      · exact fun heq => nomatch heq
      · exact fun heq => nomatch heq

theorem detect_withObject : detectContentTypeHeuristic withObject ≠ .jsonArray := by
  have hback : withObject.reverse = byte '\x7b' :: (newline :: longLine.reverse) := by
    have hlast : (lit "\n\x7b").reverse = [byte '\x7b', newline] := by decide
    rw [withObject, List.reverse_append, hlast, List.cons_append, List.cons_append, List.nil_append]
  have htrim : trimSpace withObject = withObject := by
    refine trimSpace_eq_self rfl ?_
    rw [hback]
    rfl
  have hlit : lit "\n\x7b" = lit "\n" ++ lit "\x7b" := by decide
  have hnewline : contains withObject (lit "\n") = true := by
    rw [withObject, hlit]
    exact contains_append _ _ _
  have hobject : contains (trimSpace withObject) (lit "\n\x7b") = true := by
    have happend := contains_append longLine (lit "\n\x7b") []
    rwa [List.append_nil, ← withObject, ← htrim] at happend
  have hmatched : ¬ 3 < matchedFrom 0 (splitByte newline withObject) := by
    have hle := matchedFrom_le 0 (splitByte newline withObject)
    have hsplit : splitByte newline withObject = (longLine ++ []) :: [lit "\x7b"] := by
      rw [withObject]
      exact splitByte_append newline_notMem_longLine (by decide)
    rw [hsplit] at hle ⊢
    exact Nat.not_lt.mpr (Nat.le_succ_of_le hle)
  rw [detectContentTypeHeuristic, htrim, hnewline, Bool.not_true, Bool.and_false,
    if_neg Bool.false_ne_true]
  dsimp only
  rw [if_neg hmatched]
  exact detectFromContent_ne_jsonArray hobject

theorem sample_withObject : sample withObject = sample longLine := by
  have hlen : longLine.length = 4096 := by rw [longLine, List.length_cons, List.length_replicate]
  have hlong : 4096 < withObject.length := by
    rw [withObject, List.length_append, hlen]
    decide
  rw [sample, if_pos hlong, sample, if_neg (by omega), withObject]
  exact List.take_left' hlen

theorem predict_of_sample_eq {c c' : Str} (h : sample c' = sample c) :
    (((newContentPredictor true).run sha [.call c]).predict sha c').2 =
      detectContentTypeHeuristic c := by
  have hkey : contentHash sha c' = contentHash sha c := by rw [contentHash, contentHash, h]
  rw [ContentPredictor.run_enabled sha rfl, ContentPredictor.predict_enabled sha rfl]
  show (Memo.call (contentHash sha) detectContentTypeHeuristic
    (Function.update Memo.empty (contentHash sha c) (some (detectContentTypeHeuristic c))) c').2 = _
  rw [Memo.call, hkey, Function.update_self]

/-- A line that begins with a bracket, and a text of two lines that begins with it. -/
theorem predict_by_sample :
    HashesApart padded [.call longLine, .call withObject] ∧
      (((newContentPredictor true).run padded [.call longLine]).predict padded withObject).2 =
        .jsonArray ∧
      detectContentTypeHeuristic withObject ≠ .jsonArray ∧
      ¬ Transparent padded [.call longLine, .call withObject] := by
  have hpredict : (((newContentPredictor true).run padded [.call longLine]).predict padded
      withObject).2 = .jsonArray :=
    (predict_of_sample_eq sample_withObject).trans detect_longLine
  refine ⟨?_, hpredict, detect_withObject, ?_⟩
  · have hsample : ∀ c, (.call c ∈ ([.call longLine, .call withObject] : List (MemoOp Str)) ∨
        .forget c ∈ ([.call longLine, .call withObject] : List (MemoOp Str))) →
          sample c = sample longLine := by
      intro c hc
      rcases hc with hc | hc
      · rcases List.mem_cons.mp hc with hc | hc
        · rw [MemoOp.call.inj hc]
        · rw [MemoOp.call.inj (List.mem_singleton.mp hc), sample_withObject]
      · exact absurd hc (by simp)
    intro c c' hc hc' _
    rw [hsample c hc, hsample c' hc']
  · intro h
    have hright := h [.call longLine] withObject [] rfl
    rw [hpredict] at hright
    exact detect_withObject hright.symm

end MiniGoAgent
