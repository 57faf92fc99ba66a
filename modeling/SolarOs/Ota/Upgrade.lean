import SolarOs.Esp
import SolarOs.Library.CString
import SolarOs.Library.Program

/-! The upgrade of the firmware over the air: a signed index, the artifact it names, and the image. -/
namespace SolarOs.Ota
open Program

/-- A value that `cJSON` has read; a number is what `solar_os_json_get_uint32` makes of it. -/
inductive Json where
  | object (members : List (CString × Json))
  | array (items : List Json)
  | string (text : CString)
  | number (uint32 : Except EspErr Nat)
  | other

def key (text : String) : CString := .ofBytes (text.toList.map fun c => .ofNat c.toNat)

/-- `solar_os_json_path_get`, for a path of one key. -/
def Json.get (name : String) : Json → Option Json
  | .object members => (members.find? fun m => m.1 = key name).map Prod.snd
  | _ => none

/-- `solar_os_json_get_path_string`, into a buffer of so many bytes. -/
def Json.getString (value : Json) (name : String) (size : Nat) : Except EspErr CString :=
  match value.get name with
  | none => .error .notFound
  | some (.string text) => if size ≤ text.strlen then .error .invalidSize else .ok text
  | some _ => .error .invalidResponse

/-- `solar_os_json_get_path_uint32`. -/
def Json.getUint32 (value : Json) (name : String) : Except EspErr Nat :=
  match value.get name with
  | none => .error .notFound
  | some (.number uint32) => uint32
  | some _ => .error .invalidResponse

def hexValue (ch : UInt8) : Option UInt8 :=
  if Ctype.isDigit ch then some (ch - 0x30)
  else if 0x61 ≤ ch ∧ ch ≤ 0x66 then some (ch - 0x61 + 10)
  else if 0x41 ≤ ch ∧ ch ≤ 0x46 then some (ch - 0x41 + 10)
  else none

/-- `solar_os_crypto_hex_to_bytes`, for a text of twice as many digits. -/
def hexToBytes : List UInt8 → Option (List UInt8)
  | [] => some []
  | hi :: lo :: rest => do return ((← hexValue hi) <<< 4 ||| (← hexValue lo)) :: (← hexToBytes rest)
  | _ => none

def sha256MatchesHex (digest : List UInt8) (hex : CString) : Bool := hex.strlen = 64 && hexToBytes hex.bytes = some digest

/-- The device, the server it asks, and what it computes with: URLs, JSON, base64, ECDSA and SHA-256. -/
structure Setting where
  boardId : CString
  flavor : CString
  indexUrl : Except EspErr CString
  urlIsValid : CString → Bool
  urlDirectory : CString → Except EspErr CString
  joinUrl : CString → CString → Except EspErr CString
  parse : CString → Option Json
  decode : CString → Except EspErr (List UInt8)
  verify : CString → List UInt8 → Bool
  sha256 : List UInt8 → List UInt8

/-- `solar_os_ota_check_result_t`, of the artifact. -/
structure Artifact where
  version : CString
  sha256 : CString
  size : Nat
  firmwareUrl : CString
  manifestUrl : CString

section Index
variable (setting : Setting)

def readArtifactString (artifact : Json) (name : String) (size : Nat) : Except EspErr CString :=
  (artifact.getString name size).mapError fun _ => .invalidResponse

/-- `ota_fill_artifact_from_json`. -/
def fillArtifact (artifact : Json) (baseUrl : CString) : Except EspErr Artifact := do
  let version ← readArtifactString artifact "version" 32
  let firmware ← readArtifactString artifact "firmware" 220
  let manifest ← readArtifactString artifact "manifest" 220
  let sha256 ← readArtifactString artifact "sha256" 65
  if (sha256.strlen = 64 && sha256.bytes.all fun ch => (hexValue ch).isSome) = false then
    throw .invalidResponse
  let size ← (artifact.getUint32 "size").mapError fun e => if e = .notFound then .invalidResponse else e
  return ⟨version, sha256, size, ← setting.joinUrl baseUrl firmware, ← setting.joinUrl baseUrl manifest⟩

/-- The artifact for the board and the flavor. -/
def mine (artifact : Json) : Bool :=
  match artifact.getString "board_id" 64, artifact.getString "flavor" 32 with
  | .ok boardId, .ok flavor => boardId = setting.boardId && flavor = setting.flavor
  | _, _ => false

/-- `ota_find_artifact_in_index`. -/
def findArtifact (root : Json) (baseUrl : CString) : Except EspErr Artifact :=
  match root.get "artifacts" with
  | some (.array artifacts) =>
    match artifacts.find? (mine setting) with
    | some artifact => fillArtifact setting artifact baseUrl
    | none => .error .notFound
  | _ => .error .invalidResponse

def indexBaseUrl (root : Json) (indexUrl : CString) : Except EspErr CString :=
  match root.getString "base_url" 220 with
  | .ok url => if setting.urlIsValid url then .ok url else .error .invalidResponse
  | .error .notFound => setting.urlDirectory indexUrl
  | .error e => .error e

/-- `ota_parse_release_index`, of the parsed index. -/
def releaseArtifact (root : Json) (indexUrl : CString) : Except EspErr Artifact :=
  match root.getString "schema" 40, root.getString "project" 16 with
  | .ok schema, .ok project =>
    if schema = key "solaros.release_index" ∧ project = key "SolarOS" then
      indexBaseUrl setting root indexUrl >>= findArtifact setting root
    else .error .invalidResponse
  | _, _ => .error .invalidResponse

end Index

inductive Deed where
  | begun | finished | aborted
  deriving DecidableEq

/-- What the servers have returned, what the event handler has made of the image, and what was done with the handle. -/
structure World where
  index : Option CString
  signature : Option CString
  received : List UInt8
  hashed : List UInt8
  hashFailed : Bool
  complete : Bool
  deeds : List Deed

def World.start : World := ⟨none, none, [], [], false, false, []⟩

/-- A piece of a response, its status, and whether the hash takes it. -/
structure Chunk where
  status : Nat
  data : List UInt8
  hashes : Bool

structure Env where
  error : Option EspErr
  body : List UInt8
  chunks : List Chunk
  holds : Bool

/-- `ota_firmware_http_event`; what is hashed is as long as `bytes_hashed` says. -/
def httpEvent (w : World) (chunk : Chunk) : World :=
  if chunk.data = [] ∨ chunk.status < 200 ∨ 300 ≤ chunk.status then w
  else
    let w := { w with received := w.received ++ chunk.data }
    if chunk.hashes = false ∨ 2 ^ 32 ≤ w.hashed.length + chunk.data.length then { w with hashFailed := true }
    else { w with hashed := w.hashed ++ chunk.data }

inductive Op : Type → Type
  | alloc : Op (Except EspErr Unit)
  | getIndex (url : CString) : Op (Except EspErr CString)
  | getSignature (url : CString) : Op (Except EspErr CString)
  | verify (body : CString) (signature : List UInt8) : Op (Except EspErr Unit)
  | parse (body : CString) : Op (Except EspErr Json)
  | shaStart : Op (Except EspErr Unit)
  | begin (url : CString) : Op (Except EspErr Unit)
  | perform : Op (Option (Except EspErr Unit))
  | isComplete : Op (Except EspErr Bool)
  | hashFailed : Op (Except EspErr Bool)
  | shaFinish : Op (Except EspErr (List UInt8))
  | finish : Op (Except EspErr Unit)
  | abort : Op Unit

section Calls
variable (setting : Setting)

def Env.answer {α : Type} (e : Env) (value : α) : Except EspErr α := e.error.elim (.ok value) .error

def act {α : Type} (op : Op α) (w : World) (e : Env) : World × α :=
  match op with
  | .alloc | .shaStart => (w, e.answer ())
  | .getIndex _ => ({ w with index := some (.ofBytes e.body) }, e.answer (.ofBytes e.body))
  | .getSignature _ => ({ w with signature := some (.ofBytes e.body) }, e.answer (.ofBytes e.body))
  | .verify body signature => (w, if setting.verify body signature then e.answer () else .error .fail)
  | .parse body => (w, (setting.parse body).elim (.error .fail) e.answer)
  | .begin _ =>
    let w := e.chunks.foldl httpEvent w
    -- a handle that could not be begun is `NULL`
    (if e.error.isNone then { w with deeds := w.deeds ++ [.begun] } else w, e.answer ())
  | .perform => (e.chunks.foldl httpEvent w, if e.holds then none else some (e.answer ()))
  | .isComplete => ({ w with complete := e.holds }, .ok e.holds)
  | .hashFailed => (w, .ok w.hashFailed)
  | .shaFinish => (w, e.answer (setting.sha256 w.hashed))
  | .finish => ({ w with deeds := w.deeds ++ [.finished] }, e.answer ())
  | .abort => ({ w with deeds := w.deeds ++ [.aborted] }, ())

abbrev Prog (α : Type) := ExceptT EspErr (Program Op) α

def call {α : Type} (op : Op (Except EspErr α)) : Prog α := ExceptT.mk (invoke op)

def give {α : Type} (value : Except EspErr α) : Prog α := ExceptT.mk (pure value)

def resolveArtifact : Prog Artifact := do
  let url ← give setting.indexUrl
  let body ← call (.getIndex url)
  let signatureUrl ← give (setting.urlDirectory url >>= fun base => setting.joinUrl base (key "index.sig"))
  let text ← call (.getSignature signatureUrl)
  let signature ← give (if body.bytes = [] ∨ text.bytes = [] then .error .invalidArg else setting.decode text)
  call (.verify body signature)
  let root ← call (.parse body)
  give (releaseArtifact setting root url)

def begin : Prog Artifact := do
  call .alloc
  let artifact ← resolveArtifact setting
  call .shaStart
  call (.begin artifact.firmwareUrl)
  return artifact

/-- The loop of `solar_os_ota_upgrade`, for so many rounds. -/
def download : Nat → Program Op (Option (Except EspErr Unit))
  | 0 => return none
  | rounds + 1 => do
    match ← invoke .perform with
    | none => download rounds
    | some result => return some result

def checkImage (artifact : Artifact) (performed : Except EspErr Unit) : Prog Unit := do
  give performed
  let complete ← call .isComplete
  give (if complete then .ok () else .error .invalidSize)
  let failed ← call .hashFailed
  give (if failed then .error .fail else .ok ())
  let digest ← call .shaFinish
  give (if sha256MatchesHex digest artifact.sha256 then .ok () else .error .invalidCrc)

/-- `solar_os_ota_upgrade`; nothing is returned while the download goes on. -/
def upgrade (rounds : Nat) : Program Op (Option (Except EspErr Unit)) := do
  match ← (begin setting).run with
  | .error e => return some (.error e)
  | .ok artifact =>
    match ← download rounds with
    | none => return none
    | some performed =>
      match ← (checkImage artifact performed).run with
      | .error e =>
        invoke .abort
        return some (.error e)
      | .ok () =>
        let result ← invoke .finish
        return some result

end Calls

section
variable (setting : Setting)

/-- The index names an artifact with this checksum for the board and the flavor. -/
def Names (root : Json) (sha256 : CString) : Prop :=
  ∃ artifacts artifact, root.get "artifacts" = some (.array artifacts) ∧ artifact ∈ artifacts ∧
    artifact.getString "board_id" 64 = .ok setting.boardId ∧ artifact.getString "flavor" 32 = .ok setting.flavor ∧
    artifact.getString "sha256" 65 = .ok sha256

/-- The index that was received is signed, and names an artifact with this checksum. -/
def Signed (w : World) (sha256 : CString) : Prop :=
  ∃ body text signature root, w.index = some body ∧ w.signature = some text ∧ setting.decode text = .ok signature ∧
    setting.verify body signature = true ∧ setting.parse body = some root ∧ Names setting root sha256

/-- All of an image was received, and it is the one that the signed index names. -/
def Authentic (w : World) : Prop :=
  w.complete = true ∧ ∃ sha256, Signed setting w sha256 ∧ sha256MatchesHex (setting.sha256 w.received) sha256 = true

/-- Only an image that is authentic is activated. -/
def Activated (w : World) : Prop := .finished ∈ w.deeds → Authentic setting w

end

/-- What was done with the handle by the end. -/
def Ended : Option (Except EspErr Unit) → List Deed → Prop
  | none, deeds => deeds = [.begun]
  | some result, deeds =>
    deeds = [.begun, .finished] ∨ (deeds = [] ∨ deeds = [.begun, .aborted]) ∧ ∃ e, result = .error e

section Index
variable {setting : Setting} {root : Json} {url : CString} {artifact : Artifact}

theorem bind_ok {α β : Type} {x : Except EspErr α} {f : α → Except EspErr β} {b : β} (done : (x >>= f) = .ok b) :
    ∃ a, x = .ok a ∧ f a = .ok b := by
  cases x with
  | error e => cases done
  | ok a => exact ⟨a, rfl, done⟩

theorem fillArtifact_sha256 {entry : Json} (filled : fillArtifact setting entry url = .ok artifact) :
    entry.getString "sha256" 65 = .ok artifact.sha256 := by
  unfold fillArtifact at filled
  obtain ⟨version, -, filled⟩ := bind_ok filled
  obtain ⟨firmware, -, filled⟩ := bind_ok filled
  obtain ⟨manifest, -, filled⟩ := bind_ok filled
  obtain ⟨sha256, read, filled⟩ := bind_ok filled
  dsimp only at filled
  split at filled
  · cases filled
  obtain ⟨size, -, filled⟩ := bind_ok filled
  obtain ⟨firmwareUrl, -, filled⟩ := bind_ok filled
  obtain ⟨manifestUrl, -, filled⟩ := bind_ok filled
  cases filled
  unfold readArtifactString at read
  cases text : entry.getString "sha256" 65 with
  | error e => rw [text] at read; cases read
  | ok text => rw [text] at read; cases read; rfl

theorem mine_eq {entry : Json} (here : mine setting entry = true) :
    entry.getString "board_id" 64 = .ok setting.boardId ∧ entry.getString "flavor" 32 = .ok setting.flavor := by
  unfold mine at here
  split at here
  · rename_i boardId flavor board kind
    rw [Bool.and_eq_true, decide_eq_true_eq, decide_eq_true_eq] at here
    rw [board, kind, here.1, here.2]
    exact ⟨rfl, rfl⟩
  · cases here

theorem names_of_release (released : releaseArtifact setting root url = .ok artifact) : Names setting root artifact.sha256 := by
  unfold releaseArtifact at released
  split at released
  · split at released
    · obtain ⟨baseUrl, -, found⟩ := bind_ok released
      unfold findArtifact at found
      split at found
      · rename_i artifacts there
        split at found
        · rename_i entry chosen
          obtain ⟨board, flavor⟩ := mine_eq (List.find?_some chosen)
          exact ⟨artifacts, entry, there, List.mem_of_find?_eq_some chosen, board, flavor, fillArtifact_sha256 found⟩
        · cases found
      · cases found
    · cases released
  · cases released

end Index

/-- As long as no piece has failed, what is hashed is what was received. -/
def Sound (w : World) : Prop := w.hashFailed = false → w.hashed = w.received

theorem Sound.httpEvent {w : World} (sound : Sound w) (chunk : Chunk) : Sound (httpEvent w chunk) := by
  unfold Ota.httpEvent
  split
  · exact sound
  · dsimp only
    split
    · exact nofun
    · intro fine
      exact congrArg (· ++ chunk.data) (sound fine)

structure Same (w w' : World) : Prop where
  index : w'.index = w.index
  signature : w'.signature = w.signature
  deeds : w'.deeds = w.deeds

theorem httpEvents_same (chunks : List Chunk) {w : World} (sound : Sound w) :
    Sound (chunks.foldl httpEvent w) ∧ Same w (chunks.foldl httpEvent w) := by
  induction chunks generalizing w with
  | nil => exact ⟨sound, rfl, rfl, rfl⟩
  | cons chunk chunks ih =>
    obtain ⟨sound', same⟩ := ih (sound.httpEvent chunk)
    have first : Same w (httpEvent w chunk) := by
      unfold httpEvent
      split
      · exact ⟨rfl, rfl, rfl⟩
      · dsimp only
        split
        · exact ⟨rfl, rfl, rfl⟩
        · exact ⟨rfl, rfl, rfl⟩
    exact ⟨sound', same.index.trans first.index, same.signature.trans first.signature, same.deeds.trans first.deeds⟩

section Steps
variable {setting : Setting} {α β : Type} {good : World → Prop} {w : World} {post : Except EspErr β → World → Prop}

variable {f : α → Prog β}

theorem passes_call {op : Op (Except EspErr α)} (here : good w) (next : ∀ e, match (act setting op w e).2 with
      | .error err => good (act setting op w e).1 ∧ post (.error err) (act setting op w e).1
      | .ok a => Passes (act setting) good post (f a).run (act setting op w e).1) :
    Passes (act setting) good post (call op >>= f).run w := by
  refine Passes.except_bind ⟨here, fun e => ?_⟩
  have next := next e
  cases reply : (act setting op w e).2 with
  | error err =>
    rw [reply] at next
    exact ⟨next.1, next⟩
  | ok a =>
    rw [reply] at next
    exact ⟨next.start, next⟩

theorem passes_answer {op : Op (Except EspErr α)} {after : Env → World} {value : Env → α}
    (acts : ∀ e, act setting op w e = (after e, e.answer (value e))) (here : good w)
    (fails : ∀ e err, good (after e) ∧ post (.error err) (after e))
    (works : ∀ e, Passes (act setting) good post (f (value e)).run (after e)) :
    Passes (act setting) good post (call op >>= f).run w := by
  refine passes_call here fun e => ?_
  rw [acts, Env.answer]
  cases e.error with
  | some err => exact fails e err
  | none => exact works e

theorem passes_give {value : Except EspErr α} (here : good w) (fails : ∀ e, value = .error e → post (.error e) w)
    (next : ∀ a, value = .ok a → Passes (act setting) good post (f a).run w) :
    Passes (act setting) good post (give value >>= f).run w := by
  cases value with
  | error e => exact ⟨here, fails e rfl⟩
  | ok a => exact next a rfl

end Steps

variable {setting : Setting}

theorem Activated.idle {w : World} (none : w.deeds = []) : Activated setting w := by
  intro there
  rw [none] at there
  cases there

theorem Activated.begun {w : World} (begun : w.deeds = [.begun]) : Activated setting w := by
  intro there
  rw [begun] at there
  exact absurd there (by decide)

structure Ready (setting : Setting) (sha256 : CString) (deeds : List Deed) (w : World) : Prop where
  signed : Signed setting w sha256
  sound : Sound w
  deeds : w.deeds = deeds

theorem resolve_signed :
    Passes (act setting) (Activated setting) (fun result w => w.deeds = [] ∧ Sound w ∧ ∀ artifact, result = .ok artifact →
      Signed setting w artifact.sha256) (resolveArtifact setting).run .start := by
  refine passes_give (.idle rfl) (fun _ _ => ⟨rfl, fun _ => rfl, nofun⟩) fun url _ => ?_
  refine passes_answer (fun _ => rfl) (.idle rfl) (fun _ _ => ⟨.idle rfl, rfl, fun _ => rfl, nofun⟩) fun index => ?_
  refine passes_give (.idle rfl) (fun _ _ => ⟨rfl, fun _ => rfl, nofun⟩) fun signatureUrl _ => ?_
  refine passes_answer (fun _ => rfl) (.idle rfl) (fun _ _ => ⟨.idle rfl, rfl, fun _ => rfl, nofun⟩) fun text => ?_
  refine passes_give (.idle rfl) (fun _ _ => ⟨rfl, fun _ => rfl, nofun⟩) fun signature decoded => ?_
  have decoded : setting.decode (.ofBytes text.body) = .ok signature := by
    split at decoded
    · cases decoded
    · exact decoded
  cases verified : setting.verify (.ofBytes index.body) signature with
  | false =>
    refine passes_call (.idle rfl) fun e => ?_
    simp only [act, verified]
    exact ⟨.idle rfl, rfl, fun _ => rfl, nofun⟩
  | true =>
    refine passes_answer (fun e => by rw [act, verified, if_pos rfl]) (.idle rfl)
      (fun _ _ => ⟨.idle rfl, rfl, fun _ => rfl, nofun⟩) fun _ => ?_
    cases parsed : setting.parse (.ofBytes index.body) with
    | none =>
      refine passes_call (.idle rfl) fun e => ?_
      simp only [act, parsed]
      exact ⟨.idle rfl, rfl, fun _ => rfl, nofun⟩
    | some root =>
      refine passes_answer (fun e => by rw [act, parsed]; rfl) (.idle rfl)
        (fun _ _ => ⟨.idle rfl, rfl, fun _ => rfl, nofun⟩) fun _ => ?_
      refine ⟨.idle rfl, rfl, fun _ => rfl, fun artifact released => ?_⟩
      exact ⟨_, _, _, _, rfl, rfl, decoded, verified, parsed, names_of_release released⟩

theorem Ready.httpEvents {sha256 : CString} {deeds : List Deed} {w : World}
    (ready : Ready setting sha256 deeds w) (chunks : List Chunk) : Ready setting sha256 deeds (chunks.foldl httpEvent w) := by
  obtain ⟨sound, same⟩ := httpEvents_same chunks ready.sound
  refine ⟨?_, sound, same.deeds.trans ready.deeds⟩
  unfold Signed
  rw [same.index, same.signature]
  exact ready.signed

theorem begin_ready : Passes (act setting) (Activated setting) (fun result w => match result with
      | .error _ => w.deeds = []
      | .ok artifact => Ready setting artifact.sha256 [.begun] w) (begin setting).run .start := by
  refine passes_answer (fun _ => rfl) (.idle rfl) (fun _ _ => ⟨.idle rfl, rfl⟩) fun _ => ?_
  refine Passes.except_bind ((resolve_signed).imp ?_)
  rintro result w ⟨none, sound, signed⟩
  cases result with
  | error e => exact ⟨.idle none, none⟩
  | ok artifact =>
    refine passes_answer (fun _ => rfl) (.idle none) (fun _ _ => ⟨.idle none, none⟩) fun _ => ?_
    refine passes_call (.idle none) fun e => ?_
    have ready := (Ready.mk (signed artifact rfl) sound none).httpEvents e.chunks
    cases failed : e.error with
    | some err =>
      simp only [act, Env.answer, failed]
      exact ⟨.idle ready.deeds, ready.deeds⟩
    | none =>
      simp only [act, Env.answer, failed]
      have begun : (e.chunks.foldl httpEvent w).deeds ++ [Deed.begun] = [.begun] := by rw [ready.deeds, List.nil_append]
      exact ⟨.begun begun, ready.signed, ready.sound, begun⟩

theorem download_ready {sha256 : CString} (rounds : Nat) {w : World} (ready : Ready setting sha256 [.begun] w) :
    Passes (act setting) (Activated setting) (fun _ w => Ready setting sha256 [.begun] w) (download rounds) w := by
  induction rounds generalizing w with
  | zero => exact ⟨.begun ready.deeds, ready⟩
  | succ rounds ih =>
    refine Passes.invoke_bind (.begun ready.deeds) fun e => ?_
    have ready := ready.httpEvents e.chunks
    cases more : e.holds with
    | true =>
      simp only [act, more]
      exact ih ready
    | false =>
      simp only [act, more]
      exact ⟨.begun ready.deeds, ready⟩

theorem checkImage_authentic {artifact : Artifact} {performed : Except EspErr Unit} {w : World}
    (ready : Ready setting artifact.sha256 [.begun] w) : Passes (act setting) (Activated setting)
      (fun result w => w.deeds = [.begun] ∧ (result = .ok () → Authentic setting w)) (checkImage artifact performed).run w := by
  have begun := ready.deeds
  have given : ∀ {b : Bool} {e : EspErr} {u : Unit}, (if b = true then Except.ok () else .error e) = .ok u → b = true := by
    intro b e u fine
    split at fine
    · assumption
    · cases fine
  refine passes_give (.begun begun) (fun _ _ => ⟨begun, nofun⟩) fun _ _ => ?_
  refine passes_call (.begun begun) fun e => ?_
  refine passes_give (.begun begun) (fun _ _ => ⟨begun, nofun⟩) fun _ complete => ?_
  refine passes_call (.begun begun) fun _ => ?_
  cases failed : w.hashFailed with
  | true => exact passes_give (.begun begun) (fun _ _ => ⟨begun, nofun⟩) (by rw [act, failed]; nofun)
  | false =>
    refine passes_give (.begun begun) (fun _ _ => ⟨begun, nofun⟩) fun _ _ => ?_
    refine passes_answer (fun _ => rfl) (.begun begun) (fun _ _ => ⟨.begun begun, begun, nofun⟩) fun _ => ?_
    refine ⟨.begun begun, begun, fun matches_ => ⟨given complete, _, ready.signed, ?_⟩⟩
    have same : sha256MatchesHex (setting.sha256 w.hashed) artifact.sha256 = true := given matches_
    rw [ready.sound failed] at same
    exact same

/-- Only a signed image is activated, and every handle that was begun is finished or aborted once. -/
theorem upgrade_activates (setting : Setting) (rounds : Nat) (env : Nat → Env) :
    (∀ n, Activated setting (stop (act setting) (upgrade setting rounds) env n .start)) ∧
      Ended (finish (act setting) (upgrade setting rounds) .start env).2
        (finish (act setting) (upgrade setting rounds) .start env).1.deeds := by
  have passes : Passes (act setting) (Activated setting) (fun result w => Ended result w.deeds) (upgrade setting rounds) .start := by
    refine Passes.bind (begin_ready.imp ?_)
    rintro (e | artifact) w here
    · exact ⟨.idle here, .inr ⟨.inl here, e, rfl⟩⟩
    · refine Passes.bind ((download_ready rounds here).imp ?_)
      rintro (_ | performed) w ready
      · exact ⟨.begun ready.deeds, ready.deeds⟩
      · refine Passes.bind ((checkImage_authentic ready).imp ?_)
        rintro (e | _) w ⟨begun, authentic⟩
        · have aborted : w.deeds ++ [.aborted] = [.begun, .aborted] := by rw [begun]; rfl
          refine Passes.invoke_bind (.begun begun) fun _ => ⟨?_, .inr ⟨.inr aborted, e, rfl⟩⟩
          intro there
          exact absurd (aborted ▸ there : Deed.finished ∈ [Deed.begun, .aborted]) (by decide)
        · have finished : w.deeds ++ [.finished] = [.begun, .finished] := by rw [begun]; rfl
          exact Passes.invoke_bind (.begun begun) fun _ => ⟨fun _ => authentic rfl, .inl finished⟩
  have : Nonempty Env := ⟨env 0⟩
  exact ⟨stop_iff.mpr (passes.imp fun _ _ _ => trivial) env, (passes.result env).2⟩

end SolarOs.Ota
