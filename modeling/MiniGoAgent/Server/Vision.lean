/-
# `Server.Vision` — the two ways to an image (`internal/server/server.go`, `tools/vision.go`)

`prepareVisionMessage` takes one of two ways, by the name of the model.  A model that sees
gets the image itself: `imageToDataURL` fetches it.  For the others the tool `RunVision`
fetches it and asks another model.  Each way has its own function that downloads.
`fetchImage`, of the tool, refuses a host that is private; `fetchImageDataURL` does not
look at the host at all, and neither looks at the hosts it is redirected to
(`loopback_is_fetched`).

`visionGuarded_iff` says for which images the two ways are alike and never ask a private
host.

Outside of the model, and therefore parameters: the environment variables, the network,
the file system, `http.DetectContentType`, the texts of library errors and the vision API.
-/
import MiniGoAgent.Go.Http
import MiniGoAgent.Protocol.Host
import MiniGoAgent.Server.Handlers
import MiniGoAgent.Tools.FileOps

open Go

namespace MiniGoAgent

/-! ## The functions -/

/-- What `RunVision` asks the vision API. -/
structure VisionCall where
  apiURL : Str
  apiKey : Str
  model : Str
  prompt : Str
  image : Str

/-- What the two ways read from outside. -/
structure VisionEnv where
  /-- `VISION_API_KEY`, `VISION_BASE_URL`, `VISION_MODEL` -/
  apiKey : Str := []
  baseURL : Str := []
  modelID : Str := []
  /-- `ALLOW_PRIVATE_IMAGE_URLS` -/
  allowPrivateImageURLs : Str := []
  web : Http.Web
  detectContentType : Str → Str
  workspaceRoot : Str := []
  getwd : Except Str Path.WorkDir
  exists? : Str → Bool
  readFile : Str → Except Str Str
  errorText : Http.GetError → Str
  api : VisionCall → Except Str Str

/-- A download: the hosts that are asked for the image, and what is returned. -/
structure Fetch (α : Type) where
  hosts : List Str := []
  result : Except Str α

section Functions

variable (env : VisionEnv)

/-- How both downloads treat the response: the content type and the body. -/
def imageBody (response : Except Http.GetError Http.Response) :
    Except Str (Str × Str) :=
  match response with
  | .error err => .error (env.errorText err)
  | .ok resp =>
    if resp.status ≠ 200 then .error (lit "HTTP " ++ itoa resp.status)
    else resp.body.map (fun data => (resp.contentType, data))

def fetchImageDataURL (url : Str) : Fetch Str :=
  let got := env.web.get url
  { hosts := got.hosts
    result := (imageBody env got.response).map (fun file =>
      let ct := if file.1 = [] then env.detectContentType file.2 else file.1
      Http.dataURL ct file.2) }

def imgExts : List Str :=
  [lit ".png", lit ".jpg", lit ".jpeg", lit ".gif", lit ".webp", lit ".bmp", lit ".svg"]

def extractLocalImagePath (input : Str) : Str :=
  let blank (c : UInt8) : Bool := (lit " \t\n\r").contains c
  let trimmed := trimSpace input
  let trimmed :=
    if trimmed.any blank then trimSpace (trimmed.rtakeWhile (fun c => !blank c)) else trimmed
  if trimmed = [] then []
  else
    match Tools.validatePath env.workspaceRoot env.getwd trimmed with
    | .error _ => []
    | .ok path =>
      if imgExts.contains (toLower (Go.Path.ext path)) && env.exists? path then path else []

/-- The content type `imageToDataURL` gives a file by its extension. -/
def imageMime (ext : Str) : Str :=
  if ext = lit ".jpg" ∨ ext = lit ".jpeg" then lit "image/jpeg"
  else if ext = lit ".gif" then lit "image/gif"
  else if ext = lit ".webp" then lit "image/webp"
  else if ext = lit ".bmp" then lit "image/bmp"
  else if ext = lit ".svg" then lit "image/svg+xml"
  else lit "image/png"

/-- What `imageToDataURL` takes for a URL. -/
def isURL (img : Str) : Bool :=
  hasPrefix img (lit "http://") || hasPrefix img (lit "https://")

def imageToDataURL (img : Str) : Fetch Str :=
  if hasPrefix img (lit "data:") then { result := .ok img }
  else if isURL img then
    let fetched := fetchImageDataURL env img
    { fetched with result := fetched.result.mapError (fun err => lit "download image: " ++ err) }
  else
    let localPath := extractLocalImagePath env img
    if localPath = [] then { result := .error (lit "invalid image path: " ++ img) }
    else
      match env.readFile localPath with
      | .error err => { result := .error (lit "read image: " ++ err) }
      | .ok data =>
        { result := .ok (Http.dataURL (imageMime (toLower (Go.Path.ext localPath))) data) }

def fetchImage (rawURL : Str) : Fetch Str :=
  match Url.parse rawURL with
  | none =>
    { result := .error (lit "invalid image URL: " ++ env.errorText (.badURL rawURL)) }
  | some u =>
    let host := u.hostname
    if host ≠ [] ∧ isPrivateHost host = true ∧
        toLower env.allowPrivateImageURLs ≠ lit "true" then
      { result := .error (lit "image URL points to private/internal address " ++
          lit "(set ALLOW_PRIVATE_IMAGE_URLS=true to override)") }
    else
      let got := env.web.get rawURL
      { hosts := got.hosts, result := (imageBody env got.response).map (fun file => file.2) }

def runVision (imageURL prompt : Str) : Fetch Str :=
  if env.apiKey = [] ∨ env.baseURL = [] then
    { result := .error (lit "请设置 VISION_API_KEY 和 VISION_BASE_URL") }
  else
    let ask (image : Str) : Except Str Str :=
      env.api {
        apiURL := trimRight env.baseURL (lit "/") ++ lit "/chat/completions"
        apiKey := env.apiKey
        model := if env.modelID = [] then lit "gpt-4o" else env.modelID
        prompt := if prompt = [] then lit "请详细描述这张图片的内容" else prompt
        image }
    if hasPrefix imageURL (lit "data:") then { result := ask imageURL }
    else
      let fetched := fetchImage env imageURL
      { hosts := fetched.hosts
        result := (fetched.result.mapError (fun err => lit "下载图片失败: " ++ err)).bind
          (fun data => ask (Http.dataURL (lit "image/png") data)) }

/-- The two ways, as the handlers use them. -/
def VisionEnv.tools : VisionTools where
  imageToDataURL := fun img => (imageToDataURL env img).result
  runVision := fun img prompt => (runVision env img prompt).result

/-- `prepareVisionMessage`, with the hosts that are asked for the image. -/
def prepareVision (model imageURL prompt : Str) :
    Fetch (Option Schema.Message × Str × Bool) where
  hosts :=
    if supportsVision model then (imageToDataURL env imageURL).hosts
    else (runVision env imageURL prompt).hosts
  result := prepareVisionMessage env.tools model imageURL prompt

end Functions

/-! ## Which hosts are asked -/

/-- `RunVision` goes on. -/
def VisionEnv.Configured (env : VisionEnv) : Prop := env.apiKey ≠ [] ∧ env.baseURL ≠ []

instance (env : VisionEnv) : Decidable env.Configured :=
  inferInstanceAs (Decidable (env.apiKey ≠ [] ∧ env.baseURL ≠ []))

/-- The host `fetchImage` looks at is public. -/
def publicURL (img : Str) : Bool :=
  match Url.parse img with
  | none => true
  | some u => !isPrivateHost u.hostname

variable {img : Str}

theorem get_data_hosts (web : Http.Web)
    (h : hasPrefix img (lit "data:") = true) : (web.get img).hosts = [] := by
  obtain ⟨rest, rfl⟩ := hasPrefix_iff.mp h
  have hname : Url.SchemeName (lit "data") :=
    { bytes := by
        intro c hc
        have hall : (lit "data").all (fun c => !Url.endsScheme c) = true := by decide
        simpa using List.all_eq_true.mp hall c hc
      letter := ⟨byte 'd', lit "ata", by decide, by decide⟩ }
  by_contra hne
  obtain ⟨u, hu, hok⟩ := (Http.get_hosts_ne_nil_iff web _).mp hne
  rw [show lit "data:" ++ rest = lit "data" ++ byte ':' :: rest by rfl] at hu
  have hscheme : u.scheme = lit "data" := Url.parse_scheme hname hu
  have hscheme' : (Http.firstURL u).scheme = lit "data" := hscheme
  rw [Http.refusal, hscheme', if_pos (by decide)] at hok
  cases hok

theorem isURL_of_data (h : hasPrefix img (lit "data:") = true) : isURL img = false := by
  obtain ⟨rest, rfl⟩ := hasPrefix_iff.mp h
  rfl

theorem imageToDataURL_hosts (env : VisionEnv) (img : Str) :
    (imageToDataURL env img).hosts = if isURL img then (env.web.get img).hosts else [] := by
  unfold imageToDataURL
  cases hdata : hasPrefix img (lit "data:") with
  | true => simp [isURL_of_data hdata]
  | false =>
    cases hurl : isURL img with
    | true => simp [fetchImageDataURL]
    | false =>
      simp only [Bool.false_eq_true, if_false]
      split
      · rfl
      · cases env.readFile (extractLocalImagePath env img) with
        | error | ok => rfl

theorem isPrivateHost_nil : isPrivateHost [] = false := by decide +kernel

section Unset

variable {env : VisionEnv} (hunset : env.allowPrivateImageURLs = [])
include hunset

theorem fetchImage_hosts (img : Str) :
    (fetchImage env img).hosts = if publicURL img then (env.web.get img).hosts else [] := by
  unfold fetchImage publicURL
  cases hp : Url.parse img with
  | none => simp [Http.Web.get, hp]
  | some u =>
    have hallow : toLower env.allowPrivateImageURLs ≠ lit "true" := by
      rw [hunset]
      decide
    cases hpriv : isPrivateHost u.hostname with
    | false => simp [hpriv]
    | true =>
      have hne : u.hostname ≠ [] := by
        intro hnil
        rw [hnil, isPrivateHost_nil] at hpriv
        cases hpriv
      simp [hne, hallow, hpriv]

theorem runVision_hosts (img prompt : Str) :
    (runVision env img prompt).hosts =
      if env.Configured ∧ publicURL img = true then (env.web.get img).hosts else [] := by
  unfold runVision
  by_cases hconf : env.Configured
  · have hset : ¬ (env.apiKey = [] ∨ env.baseURL = []) := not_or.mpr hconf
    rw [if_neg hset]
    cases hdata : hasPrefix img (lit "data:") with
    | true => simp [get_data_hosts env.web hdata]
    | false => simp [fetchImage_hosts hunset, hconf]
  · have hset : env.apiKey = [] ∨ env.baseURL = [] := by
      by_contra hno
      exact hconf (not_or.mp hno)
    rw [if_pos hset, if_neg (fun h => hconf h.1)]

end Unset

/-! ## The two ways compared -/

/-- An image given by an http(s) URL. -/
def IsHttpURL (img : Str) : Prop :=
  ∃ u, Url.parse img = some u ∧ (u.scheme = lit "http" ∨ u.scheme = lit "https")

/-- No model's way asks a private host for the image, and an http(s) URL is asked for by
both ways or by neither. -/
structure VisionGuarded (env : VisionEnv) (img prompt : Str) : Prop where
  guarded : ∀ model, ∀ host ∈ (prepareVision env model img prompt).hosts,
    isPrivateHost host = false
  alike : IsHttpURL img →
    ((imageToDataURL env img).hosts ≠ [] ↔ (runVision env img prompt).hosts ≠ [])

/-- The redirects of `u` stay at public hosts. -/
def StaysPublic (web : Http.Web) (u : Url.URL) : Prop :=
  ∀ n < Http.maxRequests, ∀ v, web.hop 0 (Http.firstURL u) n = some v →
    Http.refusal v = none → isPrivateHost (web.toASCII v.hostname) = false

/-- An image both ways fetch from public hosts, or neither fetches. -/
def SafeImage (env : VisionEnv) (img : Str) : Prop :=
  ∀ u, Url.parse img = some u → Http.refusal (Http.firstURL u) = none →
    (isURL img = true ∧ env.Configured ∧ isPrivateHost u.hostname = false ∧
        StaysPublic env.web u) ∨
      (isURL img = false ∧ ¬ (env.Configured ∧ isPrivateHost u.hostname = false))

theorem staysPublic_iff {web : Http.Web} {u : Url.URL} (hu : Url.parse img = some u) :
    StaysPublic web u ↔ ∀ host ∈ (web.get img).hosts, isPrivateHost host = false := by
  constructor
  · intro h host hmem
    obtain ⟨u', hu', n, hn, v, hv, hok, rfl⟩ := (Http.mem_get_hosts_iff web host img).mp hmem
    obtain rfl : u = u' := Option.some.inj (hu.symm.trans hu')
    exact h n hn v hv hok
  · intro h n hn v hv hok
    exact h _ ((Http.mem_get_hosts_iff web _ img).mpr ⟨u, hu, n, hn, v, hv, hok, rfl⟩)

theorem prepareVision_guarded_iff (env : VisionEnv) (img prompt : Str) :
    (∀ model, ∀ host ∈ (prepareVision env model img prompt).hosts, isPrivateHost host = false) ↔
      (∀ host ∈ (imageToDataURL env img).hosts, isPrivateHost host = false) ∧
        ∀ host ∈ (runVision env img prompt).hosts, isPrivateHost host = false := by
  constructor
  · intro h
    have hnative := h (lit "gpt-4o")
    have htool := h []
    simp only [prepareVision, show supportsVision (lit "gpt-4o") = true by decide +kernel,
      show supportsVision [] = false by decide +kernel, if_true, Bool.false_eq_true,
      if_false] at hnative htool
    exact ⟨hnative, htool⟩
  · rintro ⟨hnative, htool⟩ model
    unfold prepareVision
    cases supportsVision model with
    | true => exact hnative
    | false => exact htool

section Fetched

variable {env : VisionEnv} {img prompt : Str} {u : Url.URL} (hu : Url.parse img = some u)
include hu

theorem isHttpURL_of_refusal (hok : Http.refusal (Http.firstURL u) = none) : IsHttpURL img := by
  refine ⟨u, hu, ?_⟩
  by_contra hno
  have hrefused : Http.refusal (Http.firstURL u) = some (.unsupportedScheme u.scheme) :=
    if_pos (not_or.mp hno)
  rw [hrefused] at hok
  cases hok

theorem publicURL_iff : publicURL img = true ↔ isPrivateHost u.hostname = false := by
  simp [publicURL, hu]

theorem visionGuarded_of_safe (hunset : env.allowPrivateImageURLs = [])
    (hok : Http.refusal (Http.firstURL u) = none) (hsafe : SafeImage env img) :
    VisionGuarded env img prompt := by
  have hnative := imageToDataURL_hosts env img
  have htool := runVision_hosts hunset img prompt
  have hguarded := prepareVision_guarded_iff env img prompt
  rcases hsafe u hu hok with ⟨hurl, hconf, hpub, hstays⟩ | ⟨hurl, hnot⟩
  · have hall := (staysPublic_iff hu).mp hstays
    rw [if_pos hurl] at hnative
    rw [if_pos ⟨hconf, (publicURL_iff hu).mpr hpub⟩] at htool
    refine { guarded := hguarded.mpr ?_, alike := ?_ }
    · rw [hnative, htool]
      exact ⟨hall, hall⟩
    · intro _
      rw [hnative, htool]
  · have hnone : (imageToDataURL env img).hosts = [] := by
      rw [hnative, hurl]
      rfl
    have hnone' : (runVision env img prompt).hosts = [] := by
      rw [htool, if_neg]
      rintro ⟨hconf, hpub⟩
      exact hnot ⟨hconf, (publicURL_iff hu).mp hpub⟩
    refine { guarded := hguarded.mpr ?_, alike := ?_ }
    · simp [hnone, hnone']
    · intro _
      rw [hnone, hnone']

theorem safe_of_visionGuarded (hunset : env.allowPrivateImageURLs = [])
    (hok : Http.refusal (Http.firstURL u) = none) (hfetch : (env.web.get img).hosts ≠ [])
    (h : VisionGuarded env img prompt) : SafeImage env img := by
  have hnative := imageToDataURL_hosts env img
  have htool := runVision_hosts hunset img prompt
  have hnative_ne : (imageToDataURL env img).hosts ≠ [] ↔ isURL img = true := by
    rw [hnative]
    split <;> simp_all
  have htool_ne : (runVision env img prompt).hosts ≠ [] ↔
      env.Configured ∧ isPrivateHost u.hostname = false := by
    rw [htool, ← publicURL_iff hu]
    split <;> simp_all
  have hsame := h.alike (isHttpURL_of_refusal hu hok)
  rw [hnative_ne, htool_ne] at hsame
  intro u' hu' _
  obtain rfl : u = u' := Option.some.inj (hu.symm.trans hu')
  cases hurl : isURL img with
  | true =>
    have hstays := ((prepareVision_guarded_iff env img prompt).mp h.guarded).1
    rw [hnative, if_pos hurl] at hstays
    have htaken := hsame.mp hurl
    exact Or.inl ⟨rfl, htaken.1, htaken.2, (staysPublic_iff hu).mpr hstays⟩
  | false =>
    refine Or.inr ⟨rfl, ?_⟩
    intro htaken
    exact absurd (hsame.mpr htaken) (by simp [hurl])

end Fetched

/-- Both ways stay away from private hosts, and are alike, exactly for these images. -/
theorem visionGuarded_iff (env : VisionEnv) (img prompt : Str)
    (hunset : env.allowPrivateImageURLs = []) :
    VisionGuarded env img prompt ↔ SafeImage env img := by
  by_cases hfetch : (env.web.get img).hosts = []
  · -- nothing can be asked for
    have hnative := imageToDataURL_hosts env img
    have htool := runVision_hosts hunset img prompt
    rw [hfetch, ite_self] at hnative htool
    constructor
    · intro _ u hu hok
      exact absurd hfetch ((Http.get_hosts_ne_nil_iff env.web img).mpr ⟨u, hu, hok⟩)
    · intro _
      exact { guarded := (prepareVision_guarded_iff env img prompt).mpr (by simp [hnative, htool])
              alike := by simp [hnative, htool] }
  · obtain ⟨u, hu, hok⟩ := (Http.get_hosts_ne_nil_iff env.web img).mp hfetch
    exact ⟨safe_of_visionGuarded hu hunset hok hfetch, visionGuarded_of_safe hu hunset hok⟩

/-- A configured tool, and a network that answers as `reply` does. -/
def answeredBy (reply : Nat → Http.Reply) : VisionEnv where
  apiKey := lit "k"
  baseURL := lit "https://example.com"
  web := { toASCII := id, reply }
  detectContentType := fun _ => lit "image/png"
  getwd := .error []
  exists? := fun _ => false
  readFile := fun _ => .error []
  errorText := fun _ => []
  api := fun _ => .ok []

/-- An answer with an image in it. -/
def anImage : Http.Reply := .answered { status := 200, body := .ok [] }

/-- The image of a public host that sends no redirect. -/
theorem visionGuarded_public :
    VisionGuarded (answeredBy fun _ => anImage) (lit "https://example.com") [] := by
  refine (visionGuarded_iff _ _ [] rfl).mpr ?_
  intro u hu _
  have hparse : Url.parse (lit "https://example.com") =
      some { scheme := lit "https", host := lit "example.com" } := by decide +kernel
  obtain rfl := Option.some.inj (hparse.symm.trans hu)
  refine Or.inl ⟨by decide +kernel, by decide, by decide +kernel, ?_⟩
  intro n _ v hv _
  cases n with
  | zero =>
    cases hv
    decide +kernel
  | succ n => cases hv

/-- With a model that sees, the server asks its own machine for an image; the tool refuses
the same URL.  The tool too asks there when a public host sends it. -/
theorem loopback_is_fetched :
    (¬ VisionGuarded (answeredBy fun _ => anImage) (lit "http://127.0.0.1:23333/v1") [] ∧
      (prepareVision (answeredBy fun _ => anImage) (lit "gpt-4o")
        (lit "http://127.0.0.1:23333/v1") []).hosts = [lit "127.0.0.1"] ∧
      (prepareVision (answeredBy fun _ => anImage) (lit "deepseek-chat")
        (lit "http://127.0.0.1:23333/v1") []).hosts = [] ∧
      isPrivateHost (lit "127.0.0.1") = true) ∧
    (prepareVision (answeredBy fun n => if n = 0 then
          .redirect { scheme := lit "http", host := lit "127.0.0.1" } else anImage)
        (lit "deepseek-chat") (lit "https://example.com") []).hosts =
      [lit "example.com", lit "127.0.0.1"] := by
  have hnative : (prepareVision (answeredBy fun _ => anImage) (lit "gpt-4o")
      (lit "http://127.0.0.1:23333/v1") []).hosts = [lit "127.0.0.1"] := by decide +kernel
  have hprivate : isPrivateHost (lit "127.0.0.1") = true := by decide +kernel
  refine ⟨⟨?_, hnative, by decide +kernel, hprivate⟩, by decide +kernel⟩
  intro h
  have hasked : lit "127.0.0.1" ∈ (prepareVision (answeredBy fun _ => anImage) (lit "gpt-4o")
      (lit "http://127.0.0.1:23333/v1") []).hosts := by
    rw [hnative]
    exact List.mem_singleton_self _
  have hpublic := h.guarded _ _ hasked
  rw [hprivate] at hpublic
  cases hpublic

end MiniGoAgent
