import ServiceRuntime.GoHttp
import ServiceRuntime.GoStrings

/-!
# The Default Rate-Limit Key

`clientIP` takes the last address of `X-Forwarded-For`, the one that the nearest proxy has
added: what comes before it was sent by the client and can be anything. It reads the header with
`Header.Get`, that is, its first field line only. A proxy may as well add its address in a field
line of its own, and HTTP makes no difference between the two: a repeated field is one list. Then
the line that `clientIP` reads is the client's.

So the key is the last address of the whole list, whatever comes before it, exactly if the lines
after the first hold no address.
-/

namespace ServiceRuntime.RateLimit

open GoHttp GoStrings

/-! ## The source -/

/-- What `clientIP` reads from an `*http.Request`. -/
structure ClientRequest where
  header : Header
  remoteAddr : String

/-- `net.SplitHostPort`: host and port, or `none` for an error. -/
def splitHostPort (hostport : String) : Option (String × String) :=
  let chars := hostport.toList
  -- the port starts after the last colon
  if ':' ∉ chars then none
  else
    let port := (chars.reverse.takeWhile (· ≠ ':')).reverse
    let before := chars.take (chars.length - port.length - 1)
    match chars with
    | '[' :: inside =>
      let host := inside.takeWhile (· ≠ ']')
      -- the first closing bracket stands just before the last colon
      if before = '[' :: host ++ [']'] ∧ '[' ∉ inside ∧ ']' ∉ port then
        some (String.ofList host, String.ofList port)
      else none
    | _ =>
      if ':' ∈ before ∨ '[' ∈ chars ∨ ']' ∈ chars then none
      else some (String.ofList before, String.ofList port)

/-- The loop over the parts, from the last one on: the first that is not blank, trimmed. -/
def lastNonBlank (parts : List String) : Option String :=
  (parts.reverse.map trimSpace).find? (· ≠ "")

def clientIP (r : ClientRequest) : String :=
  let xff := r.header.get "X-Forwarded-For"
  match if xff ≠ "" then lastNonBlank (split ',' xff) else none with
  | some candidate => candidate
  | none =>
    let xri := trimSpace (r.header.get "X-Real-Ip")
    if xri ≠ "" then xri
    else
      match splitHostPort r.remoteAddr with
      | some (host, _) => if host ≠ "" then host else r.remoteAddr
      | none => r.remoteAddr

/-- The key of a request in `Limiter.Middleware`, with `clientIP` for `KeyFunc`. -/
def limiterKey (r : ClientRequest) : String :=
  let key := trimSpace (clientIP r)
  if key = "" then "anonymous" else key

/-! ## The last address of a list -/

theorem lastNonBlank_append (as bs : List String) :
    lastNonBlank (as ++ bs) = (lastNonBlank bs).or (lastNonBlank as) := by
  rw [lastNonBlank, List.reverse_append, List.map_append, List.find?_append]
  rfl

variable {rest parts : List String} {first candidate : String} {r : ClientRequest}

theorem lastNonBlank_eq_none_iff :
    lastNonBlank parts = none ↔ ∀ part ∈ parts, trimSpace part = "" := by
  simp [lastNonBlank]

theorem trimSpace_of_lastNonBlank (h : lastNonBlank parts = some candidate) :
    trimSpace candidate = candidate ∧ candidate ≠ "" := by
  have hne : candidate ≠ "" := by simpa using List.find?_some h
  obtain ⟨part, -, rfl⟩ := List.mem_map.mp (List.mem_of_find?_eq_some h)
  exact ⟨trimSpace_trimSpace part, hne⟩

/-- `strings.Split` of the empty text has only a blank part, so the check before it is free. -/
theorem lastNonBlank_split_of_get (xff : String) :
    (if xff ≠ "" then lastNonBlank (split ',' xff) else none) = lastNonBlank (split ',' xff) := by
  split
  · rfl
  · rename_i hempty
    rw [not_not] at hempty
    subst hempty
    decide

theorem get_eq (h : r.header.values "X-Forwarded-For" = first :: rest) :
    r.header.get "X-Forwarded-For" = first := by
  rw [Header.get, h, List.headD_cons]

theorem clientIP_of_first (h : r.header.values "X-Forwarded-For" = first :: rest)
    (hfirst : lastNonBlank (split ',' first) = some candidate) : clientIP r = candidate := by
  have hlast := (lastNonBlank_split_of_get first).trans hfirst
  simp only [clientIP, get_eq h, hlast]

theorem limiterKey_of_clientIP (h : lastNonBlank parts = some candidate)
    (hclient : clientIP r = candidate) : limiterKey r = candidate := by
  obtain ⟨htrim, hne⟩ := trimSpace_of_lastNonBlank h
  rw [limiterKey, hclient]
  simp only [htrim, if_neg hne]

/-! ## The whole list -/

/-- The addresses of all `X-Forwarded-For` lines: a repeated field is one list. -/
def forwarded (r : ClientRequest) : List String :=
  split ',' (join "," (r.header.values "X-Forwarded-For"))

theorem forwarded_eq (h : r.header.values "X-Forwarded-For" = first :: rest) :
    forwarded r = split ',' first ++ rest.flatMap (split ',') := by
  rw [forwarded, h]
  exact split_join ',' first rest

/-- If the list has an address, the last one is what `clientIP` returns and the key of the
    request. -/
def UsesLastHop (r : ClientRequest) : Prop :=
  ∀ candidate, lastNonBlank (forwarded r) = some candidate →
    clientIP r = candidate ∧ limiterKey r = candidate

def AllBlank (lines : List String) : Prop :=
  ∀ line ∈ lines, ∀ part ∈ split ',' line, trimSpace part = ""

theorem lastNonBlank_lines {lines : List String} :
    lastNonBlank (lines.flatMap (split ',')) = none ↔ AllBlank lines := by
  rw [lastNonBlank_eq_none_iff, AllBlank]
  simp only [List.mem_flatMap]
  exact ⟨fun h line hline part hpart => h part ⟨line, hline, hpart⟩,
    fun h part ⟨line, hline, hpart⟩ => h line hline part hpart⟩

theorem usesLastHop_of_allBlank (h : r.header.values "X-Forwarded-For" = first :: rest)
    (hrest : AllBlank rest) : UsesLastHop r := by
  intro candidate hlast
  rw [forwarded_eq h, lastNonBlank_append, lastNonBlank_lines.mpr hrest, Option.none_or] at hlast
  have hclient := clientIP_of_first h hlast
  exact ⟨hclient, limiterKey_of_clientIP hlast hclient⟩

def forwardedRequest (lines : List String) : ClientRequest where
  header := Function.update Header.empty "X-Forwarded-For" (some lines)
  remoteAddr := "192.0.2.1:1234"

theorem values_forwardedRequest (lines : List String) :
    (forwardedRequest lines).header.values "X-Forwarded-For" = lines := by
  simp [forwardedRequest, Header.values]

theorem not_usesLastHop (hrest : ¬ AllBlank rest) :
    ∃ first, ¬ UsesLastHop (forwardedRequest (first :: rest)) := by
  obtain ⟨candidate, hlast⟩ := Option.ne_none_iff_exists'.mp (mt lastNonBlank_lines.mp hrest)
  -- a first line with another address than the last one
  obtain ⟨first, hfirst, hne⟩ : ∃ first, lastNonBlank (split ',' first) = some first ∧
      first ≠ candidate := by
    by_cases hcandidate : "203.0.113.1" = candidate
    · exact ⟨"203.0.113.2", by decide, fun h => absurd (h.trans hcandidate.symm) (by decide)⟩
    · exact ⟨"203.0.113.1", by decide, hcandidate⟩
  refine ⟨first, fun huses => hne ?_⟩
  have hlines := values_forwardedRequest (first :: rest)
  have hclient := clientIP_of_first hlines hfirst
  have hwhole : lastNonBlank (forwarded (forwardedRequest (first :: rest))) = some candidate := by
    rw [forwarded_eq hlines, lastNonBlank_append, hlast, Option.some_or]
  rw [← hclient, (huses candidate hwhole).1]

/-- **When the key cannot be spoofed.** For the field lines after the first:

    1. every request with these lines uses the last address of the whole list exactly if they
       hold no address
    2. then two requests with these lines and the same last address have the same key, whatever
       comes before it and whatever else they say -/
theorem clientIP_last_hop_iff (rest : List String) :
    ((∀ r first, r.header.values "X-Forwarded-For" = first :: rest → UsesLastHop r) ↔
      AllBlank rest) ∧
    (AllBlank rest → ∀ r r' first first' candidate,
      r.header.values "X-Forwarded-For" = first :: rest →
      r'.header.values "X-Forwarded-For" = first' :: rest →
      lastNonBlank (forwarded r) = some candidate → lastNonBlank (forwarded r') = some candidate →
        limiterKey r = limiterKey r') := by
  refine ⟨⟨?_, fun hrest r first h => usesLastHop_of_allBlank h hrest⟩, ?_⟩
  · intro huses
    by_contra hrest
    obtain ⟨first, hnot⟩ := not_usesLastHop hrest
    exact hnot (huses _ first (values_forwardedRequest _))
  · intro hrest r r' first first' candidate h h' hlast hlast'
    rw [(usesLastHop_of_allBlank h hrest candidate hlast).2,
      (usesLastHop_of_allBlank h' hrest candidate hlast').2]

theorem key_same_within_first_line :
    limiterKey (forwardedRequest ["203.0.113.1, 10.0.0.1"]) =
      limiterKey (forwardedRequest ["203.0.113.2, 10.0.0.1"]) := by
  apply (clientIP_last_hop_iff []).2 (by simp [AllBlank]) _ _ "203.0.113.1, 10.0.0.1"
    "203.0.113.2, 10.0.0.1" "10.0.0.1"
  · exact values_forwardedRequest _
  · exact values_forwardedRequest _
  · decide
  · decide

/-- Two requests through one proxy, `10.0.0.1`, that adds its client's address in a line of its
    own: the clients choose their keys. -/
theorem key_spoofed_by_first_line :
    lastNonBlank (forwarded (forwardedRequest ["203.0.113.1", "10.0.0.1"])) = some "10.0.0.1" ∧
    lastNonBlank (forwarded (forwardedRequest ["203.0.113.2", "10.0.0.1"])) = some "10.0.0.1" ∧
    limiterKey (forwardedRequest ["203.0.113.1", "10.0.0.1"]) = "203.0.113.1" ∧
    limiterKey (forwardedRequest ["203.0.113.2", "10.0.0.1"]) = "203.0.113.2" ∧
    ¬ UsesLastHop (forwardedRequest ["203.0.113.1", "10.0.0.1"]) := by
  refine ⟨by decide, by decide, by decide, by decide, fun huses => ?_⟩
  have hclient := (huses "10.0.0.1" (by decide)).1
  revert hclient
  decide

end ServiceRuntime.RateLimit
