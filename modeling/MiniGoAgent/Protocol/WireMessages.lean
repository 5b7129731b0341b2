/-
# `Protocol.WireMessages` — the messages of a request (`openai.go`, `content_compress.go`)

`toWireMessages` turns a conversation into the maps that are encoded.  From the last
message of the user on, long texts of the user and of tools are compressed, by the type
`DetectContentType` gives them; both steps go through tables of the package, so what is
written depends on what was sent before.

The texts of the compression table come from contents that were sent (`Caches.From`, kept
by every operation), so as long as the first eight bytes of their sums differ, a text is
compressed as `compressContent` does it.
-/
import MiniGoAgent.Protocol.CompressContent
import MiniGoAgent.Protocol.Predict
import MiniGoAgent.Protocol.Types

open Go Go.Json

namespace MiniGoAgent

variable (vendor : Vendor)

variable (sha : Sha256)

/-! ## The two tables -/

/-- The key of the compression table: `fmt.Sprintf("%x-%d", h[:8], ct)`. -/
def compressKey (a : Str × ContentType) : Str :=
  hexEncode ((sha.sum a.1).take 8) ++ (lit "-" ++ itoa a.2.number)

def cachedCompressContent (cache : Memo Str Str) (content : Str) (ct : ContentType) :
    Memo Str Str × Str :=
  if content.length < 256 then (cache, content)
  else cache.call (compressKey sha) (fun a => compressContent a.1 a.2) (content, ct)

/-- `defaultPredictor` and `compressCache`. -/
structure Caches where
  defaultPredictor : ContentPredictor := newContentPredictor true
  compressCache : Memo Str Str := Memo.empty

namespace Caches

def detectContentType (c : Caches) (content : Str) : Caches × ContentType :=
  let (defaultPredictor, ct) := c.defaultPredictor.predict sha content
  ({ c with defaultPredictor }, ct)

/-- The type of a text is detected, and the text is compressed by it. -/
def reduce (c : Caches) (content : Str) : Caches × Str :=
  let (c, ct) := c.detectContentType sha content
  let (compressCache, result) := cachedCompressContent sha c.compressCache content ct
  ({ c with compressCache }, result)

end Caches

/-! ## The messages -/

/-- The loop of `findLiveZoneStart`, which goes down from `i`. -/
def liveZoneLoop (msgs : List Message) : Nat → Nat
  | 0 => 0
  | i + 1 => if msgs[i]?.any (fun m => m.role == roleUser) then i else liveZoneLoop msgs i

def findLiveZoneStart (msgs : List Message) : Nat := liveZoneLoop msgs msgs.length

/-- The map of a message, as its members. -/
abbrev WireMessage := List (Str × Value)

def wireToolCall (tc : ToolCall) : Value :=
  .obj [(lit "id", .str tc.id), (lit "type", .str (lit "function")),
    (lit "function", .obj [(lit "name", .str tc.name), (lit "arguments", .str tc.arguments)])]

/-- The members of a message with the given content. -/
def wireMessage (vendor : Vendor) (m : Message) (content : Value) : WireMessage :=
  [(lit "role", .str m.role), (lit "content", content)] ++
    ((if m.toolCalls = [] then []
      else (lit "tool_calls", .arr (m.toolCalls.map wireToolCall)) ::
        (if vendor = .deepSeek then [(lit "reasoning_content", .str m.reasoningContent)]
          else [])) ++
      ((if m.toolCallID = [] then [] else [(lit "tool_call_id", .str m.toolCallID)]) ++
        (if m.name = [] then [] else [(lit "name", .str m.name)])))

def IsReduced (liveIdx i : Nat) (m : Message) : Prop :=
  liveIdx ≤ i ∧ (m.role = roleTool ∨ m.role = roleUser) ∧ 512 < m.content.length

instance (liveIdx i : Nat) (m : Message) : Decidable (IsReduced liveIdx i m) :=
  inferInstanceAs (Decidable (_ ∧ _))

def wireStep (vendor : Vendor) (liveIdx i : Nat) (c : Caches) (m : Message) :
    Caches × WireMessage :=
  if 0 < m.multiContent.length then (c, wireMessage vendor m (.arr (m.multiContent.map .obj)))
  else if IsReduced liveIdx i m then
    ((c.reduce sha m.content).1, wireMessage vendor m (.str (c.reduce sha m.content).2))
  else (c, wireMessage vendor m (.str m.content))

/-- The loop from message `i` on. -/
def wireLoop (vendor : Vendor) (liveIdx : Nat) : Nat → Caches → List Message →
    Caches × List WireMessage
  | _, c, [] => (c, [])
  | i, c, m :: rest =>
    let (c, item) := wireStep sha vendor liveIdx i c m
    let (c, items) := wireLoop vendor liveIdx (i + 1) c rest
    (c, item :: items)

def toWireMessages (vendor : Vendor) (c : Caches) (msgs : List Message) :
    Caches × List WireMessage :=
  wireLoop sha vendor (findLiveZoneStart msgs) 0 c msgs

def Caches.before (vendor : Vendor) (c : Caches) (msgs : List Message) (i : Nat) : Caches :=
  (wireLoop sha vendor (findLiveZoneStart msgs) 0 c (msgs.take i)).1

/-! ## Whole runs -/

/-- Requests are built, and entries of the tables are deleted: `compressCache` does that by
itself when it is full or an entry is thirty seconds old. -/
inductive CacheOp where
  | send (vendor : Vendor) (msgs : List Message)
  | evict (content : Str) (ct : ContentType)
  | invalidate (content : Str)

namespace Caches

def step (c : Caches) : CacheOp → Caches
  | .send vendor msgs => (toWireMessages sha vendor c msgs).1
  | .evict content ct =>
    { c with compressCache := c.compressCache.forget (compressKey sha) (content, ct) }
  | .invalidate content =>
    { c with defaultPredictor := c.defaultPredictor.invalidate sha content }

def run (c : Caches) (ops : List CacheOp) : Caches := ops.foldl (step sha) c

end Caches

def sentContents : List CacheOp → List Str
  | [] => []
  | .send _ msgs :: ops => msgs.map Message.content ++ sentContents ops
  | .evict _ _ :: ops => sentContents ops
  | .invalidate _ :: ops => sentContents ops

theorem sentContents_append (ops ops' : List CacheOp) :
    sentContents (ops ++ ops') = sentContents ops ++ sentContents ops' := by
  induction ops with
  | nil => rfl
  | cons op ops ih =>
    cases op with
    | send vendor msgs =>
      rw [List.cons_append, sentContents, sentContents, ih, List.append_assoc]
    | evict | invalidate => exact ih

/-! ## Where compressed texts come from -/

/-- Every text of the compression table is one of the contents, compressed. -/
def Caches.From (contents : List Str) (c : Caches) : Prop :=
  ∃ called, Memo.Sourced (compressKey sha)
    (fun a => compressContent a.1 a.2) called c.compressCache ∧ ∀ a ∈ called, a.1 ∈ contents

/-- The keys of the contents differ in the bytes of the sums that they have. -/
def KeysApart (contents : List Str) : Prop :=
  ∀ c ∈ contents, ∀ c' ∈ contents, (sha.sum c).take 8 = (sha.sum c').take 8 → c = c'

variable {sha}

theorem compressKey_inj {a a' : Str × ContentType} (h : compressKey sha a = compressKey sha a') :
    (sha.sum a.1).take 8 = (sha.sum a'.1).take 8 ∧ a.2 = a'.2 := by
  have hlength : ∀ s, (hexEncode ((sha.sum s).take 8)).length = 16 := by
    intro s
    have hbytes : ((sha.sum s).take 8).length = 8 := by
      rw [List.length_take, sha.length_sum]
      rfl
    have htwo : ∀ t : Str, (hexEncode t).length = 2 * t.length := by
      intro t
      induction t with
      | nil => rfl
      | cons b t ih =>
        rw [hexEncode, List.flatMap_cons, List.length_append, ← hexEncode, ih, List.length_cons]
        have hbyte : (hexByte b).length = 2 := rfl
        omega
    rw [htwo, hbytes]
  have htype : ∀ ct ct' : ContentType, lit "-" ++ itoa ct.number = lit "-" ++ itoa ct'.number →
      ct = ct' := by
    intro ct ct' heq
    cases ct <;> cases ct' <;> first | rfl | exact absurd heq (by decide)
  obtain ⟨hsum, hct⟩ := List.append_inj h ((hlength a.1).trans (hlength a'.1).symm)
  exact ⟨hexEncode_injective hsum, htype _ _ hct⟩

namespace Caches

variable {contents : List Str} {c : Caches}

theorem From.new : From sha [] {} :=
  ⟨[], Memo.sourced_empty, fun _ h => absurd h List.not_mem_nil⟩

theorem From.mono {contents' : List Str} (h : c.From sha contents)
    (hsub : ∀ x ∈ contents, x ∈ contents') : c.From sha contents' := by
  obtain ⟨called, hcalled, hmem⟩ := h
  exact ⟨called, hcalled, fun a ha => hsub _ (hmem a ha)⟩

variable {content : Str}

theorem From.cached (h : c.From sha contents) (hmem : content ∈ contents)
    (ct : ContentType) (p : ContentPredictor) :
    From sha contents ⟨p, (cachedCompressContent sha c.compressCache content ct).1⟩ := by
  obtain ⟨called, hcalled, hall⟩ := h
  rw [cachedCompressContent]
  split
  · exact ⟨called, hcalled, hall⟩
  · exact ⟨(content, ct) :: called, hcalled.call (content, ct),
      List.forall_mem_cons.mpr ⟨hmem, hall⟩⟩

theorem From.reduce (h : c.From sha contents) (hmem : content ∈ contents) :
    (c.reduce sha content).1.From sha contents :=
  h.cached hmem _ _

theorem From.reduce_eq (h : c.From sha contents) (happart : KeysApart sha contents)
    (hmem : content ∈ contents) :
    (c.reduce sha content).2 = compressContent content (c.detectContentType sha content).2 := by
  obtain ⟨called, hcalled, hall⟩ := h
  show (cachedCompressContent sha c.compressCache content (c.detectContentType sha content).2).2 = _
  rw [cachedCompressContent]
  split
  next hsmall =>
    unfold compressContent
    rw [if_pos hsmall]
  next =>
    refine hcalled.answer ?_
    intro a ha hkey
    obtain ⟨hsum, hct⟩ := compressKey_inj hkey
    exact Prod.ext (happart _ (hall a ha) _ hmem hsum) hct

theorem From.wireStep (h : c.From sha contents) {m : Message} (hmem : m.content ∈ contents)
    (vendor : Vendor) (liveIdx i : Nat) :
    (wireStep sha vendor liveIdx i c m).1.From sha contents := by
  unfold MiniGoAgent.wireStep
  split
  · exact h
  · split
    · exact h.reduce hmem
    · exact h

theorem From.wireLoop (h : c.From sha contents) {msgs : List Message}
    (hmem : ∀ m ∈ msgs, m.content ∈ contents) (vendor : Vendor) (liveIdx i : Nat) :
    (wireLoop sha vendor liveIdx i c msgs).1.From sha contents := by
  induction msgs generalizing c i with
  | nil => exact h
  | cons m rest ih =>
    obtain ⟨hm, hrest⟩ := List.forall_mem_cons.mp hmem
    exact ih (h.wireStep hm vendor liveIdx i) hrest (i + 1)

theorem From.step (h : c.From sha contents) (op : CacheOp) :
    (c.step sha op).From sha (sentContents [op] ++ contents) := by
  cases op with
  | send vendor msgs =>
    refine From.wireLoop (h.mono fun x hx => List.mem_append_right _ hx) ?_ vendor _ 0
    intro m hm
    rw [sentContents, sentContents, List.append_nil]
    exact List.mem_append_left _ (List.mem_map_of_mem hm)
  | evict content ct =>
    obtain ⟨called, hcalled, hall⟩ := h
    exact ⟨called, hcalled.forget (content, ct), hall⟩
  | invalidate content => exact h

theorem From.run (h : c.From sha contents) (ops : List CacheOp) :
    (c.run sha ops).From sha (sentContents ops ++ contents) := by
  induction ops generalizing c contents with
  | nil => exact h
  | cons op ops ih =>
    refine (ih (h.step op)).mono ?_
    intro x hx
    cases op with
    | send vendor msgs =>
      simp only [sentContents, List.append_nil, List.mem_append] at hx ⊢
      tauto
    | evict | invalidate => exact hx

end Caches

/-! ## What is written for a message -/

theorem wireLoop_getElem? (liveIdx i j : Nat) (c : Caches) (msgs : List Message) :
    (wireLoop sha vendor liveIdx i c msgs).2[j]? =
      msgs[j]?.map fun m => (wireStep sha vendor liveIdx (i + j)
        (wireLoop sha vendor liveIdx i c (msgs.take j)).1 m).2 := by
  induction msgs generalizing i j c with
  | nil => rfl
  | cons m rest ih =>
    cases j with
    | zero => rfl
    | succ j =>
      rw [wireLoop, List.getElem?_cons_succ, List.getElem?_cons_succ, ih, List.take_succ_cons,
        wireLoop, Nat.add_right_comm, Nat.add_assoc]

def WireMessage.content (item : WireMessage) : Option Str :=
  match item.lookup (lit "content") with
  | some (.str s) => some s
  | _ => none

theorem content_wireMessage (m : Message) (s : Str) :
    WireMessage.content (wireMessage vendor m (.str s)) = some s := rfl

theorem content_wireMessage_arr (m : Message) (xs : List Value) :
    WireMessage.content (wireMessage vendor m (.arr xs)) = none := rfl

/-- A JSON text is written as one that says the same, another text as it is. -/
def SaysTheSame (content result : Str) : Prop :=
  (valid content = true → valid result = true ∧ parse result = parse content) ∧
    (valid content = false → result = content)

theorem saysTheSame_compressJSONArray (content : Str) :
    SaysTheSame content (compressJSONArray content) ↔
      valid content = true ∨ QuotedBlanks (false, false) content := by
  rw [← compressLoop_eq_self_iff]
  constructor
  · intro h
    by_cases hvalid : valid content = true
    · exact .inl hvalid
    · exact .inr (h.2 (Bool.not_eq_true _ ▸ hvalid))
  · rintro (hvalid | hsame)
    · refine ⟨fun _ => parse_compressJSONArray hvalid, ?_⟩
      intro hnot
      rw [hvalid] at hnot
      cases hnot
    · exact ⟨parse_compressJSONArray, fun _ => hsame⟩

theorem Caches.from_before (ops : List CacheOp) (msgs : List Message) (i : Nat) :
    ((({} : Caches).run sha ops).before sha vendor msgs i).From sha
      (sentContents (ops ++ [.send vendor msgs])) := by
  rw [sentContents_append]
  refine Caches.From.wireLoop ((Caches.From.new.run ops).mono fun x hx => ?_) ?_ vendor _ 0
  · rw [List.append_nil] at hx
    exact List.mem_append_left _ hx
  · intro m hm
    exact List.mem_append_right _ (List.mem_append_left _
      (List.mem_map_of_mem (List.mem_of_mem_take hm)))

theorem toWireMessages_getElem? (c : Caches) {msgs : List Message} {i : Nat}
    {m : Message} (hm : msgs[i]? = some m) :
    (toWireMessages sha vendor c msgs).2[i]? =
      some (wireStep sha vendor (findLiveZoneStart msgs) i (c.before sha vendor msgs i) m).2 := by
  rw [toWireMessages, wireLoop_getElem?, hm, Nat.zero_add]
  rfl

/-- **Texts that are taken for JSON.**  A long text of the user or a tool that is detected as
a JSON array keeps its meaning, or stays as it is when it has none, exactly if it is not
in the live zone, is valid JSON, or has white space only between double quotes (or the
message has parts, which are sent in its place). -/
theorem toWireMessages_json_iff (vendor : Vendor) (ops : List CacheOp) (msgs : List Message)
    (i : Nat) (m : Message) (hm : msgs[i]? = some m) (hrole : m.role = roleTool ∨ m.role = roleUser)
    (hlong : 512 < m.content.length)
    (happart : KeysApart sha (sentContents (ops ++ [.send vendor msgs])))
    (hct : ((((({} : Caches).run sha ops).before sha vendor msgs i).detectContentType sha
      m.content).2 = .jsonArray)) :
    (∃ item, (toWireMessages sha vendor (({} : Caches).run sha ops) msgs).2[i]? = some item ∧
        ∀ s, WireMessage.content item = some s → SaysTheSame m.content s) ↔
      0 < m.multiContent.length ∨ i < findLiveZoneStart msgs ∨ valid m.content = true ∨
        QuotedBlanks (false, false) m.content := by
  have hsame : SaysTheSame m.content m.content := ⟨fun h => ⟨h, rfl⟩, fun _ => rfl⟩
  have hmem : m.content ∈ sentContents (ops ++ [.send vendor msgs]) := by
    rw [sentContents_append]
    exact List.mem_append_right _ (List.mem_append_left _
      (List.mem_map_of_mem (List.mem_of_getElem? hm)))
  have hreduced := (Caches.from_before vendor ops msgs i).reduce_eq happart hmem
  rw [hct, compressContent_jsonArray (by omega)] at hreduced
  rw [toWireMessages_getElem? vendor _ hm]
  simp only [Option.some.injEq, exists_eq_left']
  unfold wireStep
  by_cases hparts : 0 < m.multiContent.length
  · rw [if_pos hparts, content_wireMessage_arr]
    exact iff_of_true (fun s hs => nomatch hs) (.inl hparts)
  rw [if_neg hparts]
  by_cases hlive : i < findLiveZoneStart msgs
  · rw [if_neg (fun h => Nat.not_le.mpr hlive h.1), content_wireMessage]
    refine iff_of_true ?_ (.inr (.inl hlive))
    intro s hs
    rw [← Option.some.inj hs]
    exact hsame
  · rw [if_pos ⟨Nat.not_lt.mp hlive, hrole, hlong⟩, content_wireMessage, hreduced,
      ← saysTheSame_compressJSONArray]
    constructor
    · intro h
      exact .inr (.inr (h _ rfl))
    · rintro (h | h | h) s hs
      · exact absurd h hparts
      · exact absurd h hlive
      · rw [← Option.some.inj hs]
        exact h

/-- A list with a lot of space in it. -/
def spacedList : Str := byte '[' :: (List.replicate 600 (byte ' ') ++ [byte ']'])

/-- The space is left out, and the list stays the empty one. -/
theorem toWireMessages_json_spaced :
    ∃ item, (toWireMessages padded .unspecified (({} : Caches).run padded [])
        [{ role := roleUser, content := spacedList }]).2[0]? = some item ∧
      ∀ s, WireMessage.content item = some s → SaysTheSame spacedList s := by
  refine (toWireMessages_json_iff .unspecified [] [{ role := roleUser, content := spacedList }] 0
    { role := roleUser, content := spacedList } rfl (.inr rfl) (by decide +kernel) ?_
    (by decide +kernel)).mpr (.inr (.inr (.inl (by decide +kernel))))
  intro c hc c' hc' _
  rw [List.mem_singleton.mp hc, List.mem_singleton.mp hc']

/-- A text that only begins with a bracket. -/
def bracketed : Str := lit "[a] b" ++ List.replicate 600 (byte 'x')

/-- The space between its words is left out. -/
theorem toWireMessages_json_words :
    ((({} : Caches).before padded .unspecified [{ role := roleUser, content := bracketed }] 0
      ).detectContentType padded bracketed).2 = .jsonArray ∧
    valid bracketed = false ∧
    (toWireMessages padded .unspecified {} [{ role := roleUser, content := bracketed }]).2.map
        WireMessage.content = [some (lit "[a]b" ++ List.replicate 600 (byte 'x'))] ∧
    ¬ ∃ item, (toWireMessages padded .unspecified {}
        [{ role := roleUser, content := bracketed }]).2[0]? = some item ∧
      ∀ s, WireMessage.content item = some s → SaysTheSame bracketed s := by
  have hvalid : valid bracketed = false := by decide +kernel
  have hwire : (toWireMessages padded .unspecified {}
      [{ role := roleUser, content := bracketed }]).2.map WireMessage.content =
        [some (lit "[a]b" ++ List.replicate 600 (byte 'x'))] := by decide +kernel
  refine ⟨by decide +kernel, hvalid, hwire, ?_⟩
  rintro ⟨item, hitem, h⟩
  have hcontent := congrArg (fun items => items[0]?) hwire
  rw [List.getElem?_map, hitem] at hcontent
  have hsame := (h _ (Option.some.inj hcontent)).2 hvalid
  exact absurd (congrArg List.length hsame) (by decide +kernel)

end MiniGoAgent
