import Tagsmaxxing.Extract.Security

/-! # The source fetcher (`source_fetch.rs`)

`fetch_url` follows redirects by hand: every hop parses the current URL, resolves its host (or takes the IP
literal), refuses internal addresses, pins the connection to the addresses it has just checked, sends one request,
and follows the `Location` header after a static check or reads the body under a size cap.

Everything outside the function is an oracle (`World`): URL parsing and joining, DNS answers and server responses,
each indexed by the hop at which it is asked, so two lookups of one name may disagree, and the connections
`reqwest` opens. A client built with `resolve_to_addrs` is assumed to connect to those addresses only
(`connects_pinned`). The result comes with the trace of requests sent and connections opened. -/

namespace Tagsmaxxing.SourceFetch

open Net Security

/-! ## Types -/

/-- `FetchLimits`. The timeout is handed to `reqwest`, whose timeouts are `SendError`s. -/
structure FetchLimits where
  maxBytes : UInt64
  maxRedirects : UInt8

/-- What the fetcher reads of a `url::Url`. -/
structure Url where
  scheme : String
  username : String
  password : Option String
  hostStr : Option String
  port : Option UInt16
  asStr : String

structure FetchedContent where
  finalUrl : String
  bytes : List UInt8
  contentType : Option String
  sha256 : List UInt8

/-- `FetchError`. Underlying errors of other crates are their messages. -/
inductive FetchError
  | unsupportedScheme (scheme : String)
  | userInfoRejected (url : String)
  | internalAddress (address : String)
  | dnsFail (host source : String)
  | noAddresses (host : String)
  | http4xx (status : ℕ) (url : String)
  | http5xx (status : ℕ) (url : String)
  | tooLarge (maxBytes : UInt64) (url : String)
  | tooManyRedirects (max : UInt8) (url : String)
  | timeout (url source : String)
  | network (url source : String)
  | invalidRedirect (location source : String)

def FetchError.isPermanent : FetchError → Bool
  | .unsupportedScheme .. | .userInfoRejected .. | .internalAddress .. | .noAddresses ..
  | .http4xx .. | .tooLarge .. | .tooManyRedirects .. | .invalidRedirect .. => true
  | .dnsFail .. | .http5xx .. | .timeout .. | .network .. => false

/-- A failed `send`. -/
structure SendError where
  isTimeout : Bool
  message : String

/-- A response: the two headers the fetcher reads, and the body as it arrives, a chunk or an error at
    a time. -/
structure Response where
  status : ℕ
  location : Option String
  contentType : Option String
  body : List (Except String (List UInt8))

/-- Everything the fetcher asks of the outside, by hop. -/
structure World where
  /-- `Url::parse`. -/
  parse : String → Except String Url
  /-- `Url::join`. -/
  join : Url → String → Except String Url
  /-- `str::to_lowercase`. -/
  toLowercase : String → String
  /-- How `IpAddr` prints, for the error text. -/
  showIp : IpAddr → String
  /-- `tokio::net::lookup_host` at a hop. -/
  lookupHost : ℕ → String → UInt16 → Except String (List SocketAddr)
  /-- Building the `reqwest` client at a hop. -/
  build : ℕ → Except String Unit
  /-- The answer to the request sent at a hop. -/
  send : ℕ → String → Except SendError Response
  /-- The connections opened for that request by a client pinned to some addresses. -/
  connects : ℕ → List SocketAddr → List SocketAddr
  /-- A pinned client connects to its pinned addresses only. -/
  connects_pinned : ∀ hop pinned, connects hop pinned ⊆ pinned
  /-- The `sha2` crate. -/
  sha256 : List UInt8 → List UInt8

/-- What a fetch does to the network. -/
inductive Event
  | connect (addr : SocketAddr)
  | request (url : String)

def Event.isRequest : Event → Bool
  | .request _ => true
  | .connect _ => false

/-! ## Validation -/

def stripIpv6Brackets (host : String) : String :=
  match host.toList with
  | '[' :: rest => if rest.getLast? = some ']' then String.ofList rest.dropLast else host
  | _ => host

def validateUrl (world : World) (urlStr : String) : Except FetchError Unit :=
  match world.parse urlStr with
  | .error e => .error (.unsupportedScheme e)
  | .ok u =>
      if u.scheme ≠ "http" ∧ u.scheme ≠ "https" then .error (.unsupportedScheme u.scheme)
      else if u.username ≠ "" ∨ u.password.isSome then .error (.userInfoRejected urlStr)
      else
        match u.hostStr with
        | none => .error (.unsupportedScheme "missing host")
        | some host =>
            let host := stripIpv6Brackets host
            if isInternalHost world.toLowercase host then .error (.internalAddress host) else .ok ()

def resolveAndValidate (world : World) (hop : ℕ) (host : String) (port : UInt16) :
    Except FetchError (List SocketAddr) :=
  match world.lookupHost hop host port with
  | .error source => .error (.dnsFail host source)
  | .ok addrs =>
      if addrs.isEmpty then .error (.noAddresses host)
      else
        match addrs.find? fun addr => isInternalIp addr.ip with
        | some addr =>
            .error (.internalAddress (host ++ " resolves to internal IP " ++ world.showIp addr.ip))
        | none => .ok addrs

/-! ## One hop -/

/-- The first half of a hop: parse the current URL, and check the addresses of its host. -/
def hopAddrs (world : World) (hop : ℕ) (current : String) : Except FetchError (Url × List SocketAddr) :=
  match world.parse current with
  | .error e => .error (.unsupportedScheme e)
  | .ok u =>
      match u.hostStr with
      | none => .error (.unsupportedScheme "missing host")
      | some host =>
          let host := stripIpv6Brackets host
          let port := u.port.getD (if u.scheme = "https" then 443 else 80)
          match parseIpAddr host with
          | some ip =>
              if isInternalIp ip then .error (.internalAddress host) else .ok (u, [⟨ip, port⟩])
          | none =>
              match resolveAndValidate world hop host port with
              | .error e => .error e
              | .ok addrs => .ok (u, addrs)

/-- The redirect branch: the next URL, joined and checked. -/
def redirectTarget (world : World) (u : Url) (r : Response) : Except FetchError String :=
  match r.location with
  | none => .error (.internalAddress "missing Location header")
  | some location =>
      match world.join u location with
      | .error source => .error (.invalidRedirect location source)
      | .ok next =>
          match validateUrl world next.asStr with
          | .error e => .error e
          | .ok () => .ok next.asStr

/-- The body loop, with the bytes read so far. -/
def readBody (limits : FetchLimits) (current : String) :
    List UInt8 → List (Except String (List UInt8)) → Except FetchError (List UInt8)
  | body, [] => .ok body
  | _, .error source :: _ => .error (.network current source)
  | body, .ok chunk :: rest =>
      if limits.maxBytes.toNat < body.length + chunk.length then
        .error (.tooLarge limits.maxBytes current)
      else readBody limits current (body ++ chunk) rest

/-- A response that is not a redirect. -/
def finish (world : World) (limits : FetchLimits) (current : String) (r : Response) :
    Except FetchError FetchedContent :=
  if 400 ≤ r.status ∧ r.status < 500 then .error (.http4xx r.status current)
  else if 500 ≤ r.status ∧ r.status < 600 then .error (.http5xx r.status current)
  else
    match readBody limits current [] r.body with
    | .error e => .error e
    | .ok body => .ok { finalUrl := current, bytes := body, contentType := r.contentType,
                        sha256 := world.sha256 body }

/-! ## The hop loop -/

/-- The `loop` of `fetch_url`, from hop number `hop` on, with `remaining` redirects left. -/
def fetchLoop (world : World) (limits : FetchLimits) (urlStr : String) :
    (remaining : ℕ) → (hop : ℕ) → (current : String) →
      Except FetchError FetchedContent × List Event
  | remaining, hop, current =>
      match hopAddrs world hop current with
      | .error e => (.error e, [])
      | .ok (u, addrs) =>
          match world.build hop with
          | .error source => (.error (.network current source), [])
          | .ok () =>
              let events := .request current :: (world.connects hop addrs).map .connect
              match world.send hop current with
              | .error e =>
                  (.error (if e.isTimeout then .timeout current e.message
                    else .network current e.message), events)
              | .ok r =>
                  if 300 ≤ r.status ∧ r.status < 400 then
                    match remaining with
                    | 0 => (.error (.tooManyRedirects limits.maxRedirects urlStr), events)
                    | remaining + 1 =>
                        match redirectTarget world u r with
                        | .error e => (.error e, events)
                        | .ok next =>
                            let (result, later) :=
                              fetchLoop world limits urlStr remaining (hop + 1) next
                            (result, events ++ later)
                  else (finish world limits current r, events)

def fetchUrl (world : World) (urlStr : String) (limits : FetchLimits) : Except FetchError FetchedContent × List Event :=
  match validateUrl world urlStr with
  | .error e => (.error e, [])
  | .ok () => fetchLoop world limits urlStr limits.maxRedirects.toNat 0 urlStr

/-! ## Safety -/

variable {world : World} {current : String} {limits : FetchLimits} {content : FetchedContent} {urlStr : String}
  {addrs : List SocketAddr} {r : Response}

theorem hopAddrs_safe {hop : ℕ} {u : Url} (h : hopAddrs world hop current = .ok (u, addrs)) :
    ∀ addr ∈ addrs, ¬ Internal addr.ip := by
  unfold hopAddrs at h
  split at h
  · cases h
  · split at h
    · cases h
    next host _ =>
      simp only at h
      split at h
      · -- an IP literal
        next ip _ =>
          split at h
          · cases h
          · next hint =>
            cases h
            refine List.forall_mem_singleton.2 ?_
            rw [← isInternalIp_iff]
            exact hint
      · -- a name: the whole answer is checked
        split at h
        · cases h
        · next addrs' hres =>
          cases h
          unfold resolveAndValidate at hres
          split at hres
          · cases hres
          · split at hres
            · cases hres
            · split at hres
              · cases hres
              · next hfind =>
                cases hres
                intro addr haddr
                rw [← isInternalIp_iff]
                exact List.find?_eq_none.1 hfind addr haddr

theorem readBody_length {body bytes : List UInt8} {chunks : List (Except String (List UInt8))}
    (hbody : body.length ≤ limits.maxBytes.toNat) (h : readBody limits current body chunks = .ok bytes) :
    bytes.length ≤ limits.maxBytes.toNat := by
  induction chunks generalizing body with
  | nil =>
    cases h
    exact hbody
  | cons c rest ih =>
    cases c with
    | error source => exact absurd h (by simp [readBody])
    | ok chunk =>
      simp only [readBody] at h
      split at h
      · cases h
      next hle => exact ih (by rw [List.length_append]; omega) h

theorem finish_length (h : finish world limits current r = .ok content) :
    content.bytes.length ≤ limits.maxBytes.toNat := by
  unfold finish at h
  split at h
  · cases h
  · split at h
    · cases h
    · split at h
      · cases h
      next body hbody =>
        cases h
        exact readBody_length (Nat.zero_le _) hbody

/-- The trace opens no connection to an internal address and sends at most `n` requests; a result
    respects the size cap. -/
structure Safe (limits : FetchLimits) (n : ℕ)
    (r : Except FetchError FetchedContent × List Event) : Prop where
  connects : ∀ addr, Event.connect addr ∈ r.2 → ¬ Internal addr.ip
  requests : r.2.countP Event.isRequest ≤ n
  size : ∀ content, r.1 = .ok content → content.bytes.length ≤ limits.maxBytes.toNat

theorem Safe.error (limits : FetchLimits) (n : ℕ) (e : FetchError) : Safe limits n (.error e, []) :=
  ⟨by simp, by simp, by simp⟩

/-- The events of one hop: its request, and connections to checked addresses. -/
theorem Safe.hop {hop n : ℕ} (haddrs : ∀ addr ∈ addrs, ¬ Internal addr.ip)
    {r : Except FetchError FetchedContent × List Event} (hr : Safe limits n r) : Safe limits (n + 1)
      (r.1, (.request current :: (world.connects hop addrs).map .connect) ++ r.2) := by
  refine ⟨?_, ?_, hr.size⟩
  · intro addr haddr
    rcases List.mem_append.1 haddr with h | h
    · rcases List.mem_cons.1 h with h | h
      · cases h
      · obtain ⟨x, hx, hxa⟩ := List.mem_map.1 h
        obtain rfl : x = addr := by simpa using hxa
        exact haddrs x (world.connects_pinned hop addrs hx)
    · exact hr.connects addr h
  · have hzero : ((world.connects hop addrs).map Event.connect).countP Event.isRequest = 0 := by
      rw [List.countP_map, List.countP_eq_zero]
      simp [Event.isRequest]
    rw [List.countP_append, List.countP_cons, hzero]
    have := hr.requests
    simp only [Event.isRequest, if_true]
    omega

variable {remaining : ℕ}

theorem fetchLoop_hop {hop : ℕ}
    (hnext : ∀ k next, remaining = k + 1 → Safe limits (k + 1) (fetchLoop world limits urlStr k (hop + 1) next))
    (current : String) : Safe limits (remaining + 1) (fetchLoop world limits urlStr remaining hop current) := by
  unfold fetchLoop
  split
  · exact .error ..
  next u addrs hok =>
    have haddrs := hopAddrs_safe hok
    split
    · exact .error ..
    · simp only
      split
      · -- the request failed
        simpa using Safe.hop haddrs (Safe.error limits remaining _)
      · next r _ =>
        split
        · cases remaining with
          | zero => simpa using Safe.hop haddrs (Safe.error limits 0 _)
          | succ k =>
            simp only
            split
            · simpa using Safe.hop haddrs (Safe.error limits (k + 1) _)
            · next next _ => exact Safe.hop haddrs (hnext k next rfl)
        · have hfin : Safe limits remaining (finish world limits current r, []) :=
            ⟨by simp, by simp, fun content h => finish_length h⟩
          simpa using Safe.hop haddrs hfin

/-- By induction on the redirects left: each hop is safe whatever the servers and the resolver
    answered before. -/
theorem fetchLoop_safe (world : World) (limits : FetchLimits) (urlStr : String) (remaining : ℕ) :
    ∀ (hop : ℕ) (current : String),
      Safe limits (remaining + 1) (fetchLoop world limits urlStr remaining hop current) := by
  induction remaining with
  | zero => exact fun hop current => fetchLoop_hop (fun k next h => absurd h (by omega)) current
  | succ remaining ih =>
    intro hop current
    refine fetchLoop_hop (fun k next h => ?_) current
    obtain rfl : remaining = k := Nat.succ.inj h
    exact ih (hop + 1) next

/-- **SSRF safety.** For every URL string and every behaviour of the resolver, the servers and the URL
    parser: no connection to an internal address, at most `max_redirects + 1` requests, and never more
    than `max_bytes` bytes of body. -/
theorem fetchUrl_safe (world : World) (urlStr : String) (limits : FetchLimits) :
    Safe limits (limits.maxRedirects.toNat + 1) (fetchUrl world urlStr limits) := by
  unfold fetchUrl
  split
  · exact .error ..
  · exact fetchLoop_safe world limits urlStr _ 0 urlStr

/-! ## The digest of a result -/

theorem finish_sha256 (h : finish world limits current r = .ok content) :
    content.sha256 = world.sha256 content.bytes := by
  unfold finish at h
  split at h
  · cases h
  · split at h
    · cases h
    · split at h <;> cases h
      rfl

/-- One hop: the content comes from this answer, or from the hop that a redirect leads to. -/
theorem fetchLoop_sha256_hop {hop : ℕ}
    (hnext : ∀ k next, remaining = k + 1 → (fetchLoop world limits urlStr k (hop + 1) next).1 = .ok content →
      content.sha256 = world.sha256 content.bytes)
    (h : (fetchLoop world limits urlStr remaining hop current).1 = .ok content) :
    content.sha256 = world.sha256 content.bytes := by
  unfold fetchLoop at h
  split at h
  · cases h
  · split at h
    · cases h
    · simp only at h
      split at h
      · cases h
      · split at h
        · cases remaining with
          | zero => cases h
          | succ k =>
            simp only at h
            split at h
            · cases h
            · exact hnext k _ rfl h
        · exact finish_sha256 h

theorem fetchLoop_sha256 : ∀ {hop : ℕ} {current : String} {content : FetchedContent},
      (fetchLoop world limits urlStr remaining hop current).1 = .ok content →
        content.sha256 = world.sha256 content.bytes := by
  induction remaining with
  | zero => exact fun h => fetchLoop_sha256_hop (fun k next hk => absurd hk (by omega)) h
  | succ remaining ih =>
    intro hop current content h
    refine fetchLoop_sha256_hop (fun k next hk hrest => ?_) h
    obtain rfl : remaining = k := Nat.succ.inj hk
    exact ih hrest

/-- The hash that comes with fetched content is that of its bytes. -/
theorem fetchUrl_sha256 (h : (fetchUrl world urlStr limits).1 = .ok content) :
    content.sha256 = world.sha256 content.bytes := by
  unfold fetchUrl at h
  split at h
  · cases h
  · exact fetchLoop_sha256 h

end Tagsmaxxing.SourceFetch
