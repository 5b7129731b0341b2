/-
# `Server.Handlers` — the four handlers (`internal/server`)

A request touches the sessions twice: it takes a snapshot before the agent runs
and appends to the history when the agent is done.  In between other requests
do the same, so a handler is cut in two: `Request.arrive` up to the call of the
agent, with what is kept of it in `Running`, and `Running.agentDone` from its
return on.

What is outside the server comes as an argument: whether the method and the JSON
are right and the response can be flushed, the answers of `imageToDataURL` and
`RunVision`, and what the agent does.  A panic in a handler ends its request.
-/
import MiniGoAgent.Session.Manager

open Go

namespace MiniGoAgent

/-! ## Vision -/

def supportsVision (model : Str) : Bool :=
  [lit "gpt-4o", lit "gpt-4o-mini", lit "gpt-4-turbo", lit "claude-3", lit "claude-3-5",
   lit "claude-sonnet-4", lit "claude-opus-4", lit "deepseek-vl", lit "deepseek-vl2",
   lit "qwen-vl", lit "qwen2-vl", lit "qwq", lit "step-2", lit "gemini"].any
    (fun vm => contains (toLower model) vm)

/-- The two ways to an image. -/
structure VisionTools where
  imageToDataURL : Str → Except Str Str
  runVision : Str → Str → Except Str Str

/-- `prepareVisionMessage`: the message, the result of the tool, and `isNative`. -/
def prepareVisionMessage (tools : VisionTools) (model imageURL prompt : Str) :
    Except Str (Option Schema.Message × Str × Bool) :=
  if supportsVision model then
    match tools.imageToDataURL imageURL with
    | .error err => .error err
    | .ok dataURL =>
      let textPart : Schema.InputPart := { type := lit "text", text := prompt }
      let imagePart : Schema.InputPart :=
        { type := lit "image_url", image := some { url := some dataURL } }
      .ok (some {
          role := roleUser
          content := lit "[图片] " ++ prompt
          userInputMultiContent := [textPart, imagePart] }, [], true)
  else
    match tools.runVision imageURL prompt with
    | .error err => .error err
    | .ok visionResult => .ok (none, visionResult, false)

/-! ## Up to the agent -/

inductive AgentCall where
  | generate
  /-- `watched` if the loop looks at the context of the request -/
  | stream (watched : Bool)
  deriving DecidableEq, Repr

/-- A handler that waits for the agent: its variables, and the messages it has
handed over. -/
structure Running where
  sid : Str
  userMsg : Option Schema.Message
  msgs : History
  call : AgentCall

/-- `SnapshotWith`, and the call of the agent. -/
def Manager.ask (m : Manager) (now : Int) (sid : Str) (userMsg extra : Option Schema.Message)
    (call : AgentCall) : Manager × Option Running :=
  ((m.snapshotWith now sid [extra]).1,
    some { sid, userMsg, msgs := (m.snapshotWith now sid [extra]).2, call })

def processVisionNonStream (tools : VisionTools) (model : Str) (now : Int)
    (sid imageURL prompt : Str) (m : Manager) : Manager × Option Running :=
  match prepareVisionMessage tools model imageURL prompt with
  | .error _ => (m, none)
  | .ok (userMsg, visionResult, isNative) =>
    if isNative then m.ask now sid userMsg userMsg .generate
    else
      let fallbackMsg := Schema.userMessage
        (lit "用户上传了一张图片，提问：" ++ prompt ++ lit "\n\n图片分析结果：\n" ++ visionResult)
      m.ask now sid userMsg (some fallbackMsg) .generate

def processVisionStream (tools : VisionTools) (model : Str) (now : Int)
    (sid imageURL prompt : Str) (m : Manager) : Manager × Option Running :=
  match prepareVisionMessage tools model imageURL prompt with
  | .error _ => (m, none)
  | .ok (userMsg, visionResult, isNative) =>
    if isNative then m.ask now sid userMsg userMsg (.stream false)
    else
      let fallbackMsg := Schema.userMessage
        (lit "[图片] " ++ prompt ++ lit "\n\n图片分析结果：\n" ++ visionResult)
      m.ask now sid userMsg (some fallbackMsg) (.stream false)

/-- What the handlers read of the request and the response writer. -/
structure HttpCall where
  post : Bool := true
  /-- `r.URL.Query().Get("session")` -/
  query : Str := []
  cookie : Option Str := none
  flushes : Bool := true

def Manager.sessionID (m : Manager) (r : HttpCall) : Str :=
  if r.query ≠ [] then r.query
  else
    match r.cookie with
    | some value => if value ≠ [] then value else m.defaultSession
    | none => m.defaultSession

/-- A request by its handler, with the decoded body, if it can be decoded. -/
inductive Request where
  /-- `localImage` is the base64 of the image file the message ends with, if it
  ends with the path of one that can be read -/
  | chat (message localImage : Option Str)
  | chatStream (message : Option Str)
  | vision (body : Option (Str × Str))
  | visionStream (body : Option (Str × Str))

/-- The message of `HandleChat`, an image file replaced by its data URL. -/
def chatText (message : Str) (localImage : Option Str) : Str :=
  match localImage with
  | some b64 => lit "data:image/jpeg;base64," ++ b64
  | none => message

/-- `HandleChat`, up to the agent. -/
def handleChat (tools : VisionTools) (model : Str) (now : Int) (r : HttpCall)
    (message localImage : Option Str) (m : Manager) : Manager × Option Running :=
  match r.post, message with
  | true, some message =>
    let text := chatText message localImage
    if hasPrefix text (lit "data:image/") then
      processVisionNonStream tools model now (m.sessionID r) text (lit "描述这张图片") m
    else
      let userMsg := Schema.userMessage text
      m.ask now (m.sessionID r) (some userMsg) (some userMsg) .generate
  | _, _ => (m, none)

/-- `HandleChatStream`, up to the agent. -/
def handleChatStream (now : Int) (r : HttpCall) (message : Option Str) (m : Manager) :
    Manager × Option Running :=
  match r.post, message with
  | true, some message =>
    let userMsg := Schema.userMessage message
    let (m', running) :=
      m.ask now (m.sessionID r) (some userMsg) (some userMsg) (.stream true)
    (m', if r.flushes then running else none)
  | _, _ => (m, none)

/-- `HandleVision`, up to the agent. -/
def handleVision (tools : VisionTools) (model : Str) (now : Int) (r : HttpCall)
    (body : Option (Str × Str)) (m : Manager) : Manager × Option Running :=
  match r.post, body with
  | true, some (image, prompt) =>
    processVisionNonStream tools model now (m.sessionID r) image prompt m
  | _, _ => (m, none)

/-- `HandleVisionNativeStream`, up to the agent. -/
def handleVisionNativeStream (tools : VisionTools) (model : Str) (now : Int) (r : HttpCall)
    (body : Option (Str × Str)) (m : Manager) : Manager × Option Running :=
  match r.post, body with
  | true, some (image, prompt) =>
    if r.flushes then processVisionStream tools model now (m.sessionID r) image prompt m
    else (m, none)
  | _, _ => (m, none)

/-- A request, up to the agent. -/
def Request.arrive (req : Request) (tools : VisionTools) (model : Str) (now : Int)
    (r : HttpCall) (m : Manager) : Manager × Option Running :=
  match req with
  | .chat message localImage => handleChat tools model now r message localImage m
  | .chatStream message => handleChatStream now r message m
  | .vision body => handleVision tools model now r body m
  | .visionStream body => handleVisionNativeStream tools model now r body m

/-! ## From the agent on -/

inductive AgentOutcome where
  /-- `Generate` or `Stream` gives an error, or panics -/
  | failed
  | generated (result : Option Schema.Message)
  /-- the chunks that are received before `io.EOF`, or before `err`; `gone` if the
  context of the request is seen to be done before that -/
  | streamed (chunks : List (Option Schema.Message)) (err : Option Str) (gone : Bool)

/-- `fullContent`, unless a chunk is nil. -/
def fullContent (chunks : List (Option Schema.Message)) : Option Str :=
  (chunks.mapM (Option.map Schema.Message.content)).map List.flatten

/-- The messages a handler appends, if it comes to that, and `none` for an outcome
of the other call. -/
def Running.appended (q : Running) : AgentOutcome → Option (Option History)
  | .failed => some none
  | .generated result =>
    match q.call with
    | .generate => some (some [q.userMsg, result])
    | .stream _ => none
  | .streamed chunks _ gone =>
    match q.call with
    | .generate => none
    | .stream watched =>
      if watched && gone then some none
      else
        some ((fullContent chunks).map (fun content =>
          [q.userMsg, some { role := roleAssistant, content }]))

/-- A handler, from the return of the agent on. -/
def Running.agentDone (q : Running) (now : Int) (outcome : AgentOutcome) (m : Manager) :
    Option Manager :=
  (q.appended outcome).map (fun msgs =>
    match msgs with
    | some msgs => m.append now q.sid msgs
    | none => m)

end MiniGoAgent
