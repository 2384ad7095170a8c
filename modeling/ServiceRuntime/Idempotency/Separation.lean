import ServiceRuntime.Idempotency.Origins

/-!
# Separation of Requests and Tenants

A stored response answers a request with the same scope and the same hash. `DefaultScope` joins
organization, method and path with colons, and `RequestHash` joins method, path and body; nothing
is escaped. Methods have no colon, but organizations, paths and bodies may.

Two organizations are kept apart unless one of them is the other one followed by a colon and a
method, and possibly by another colon and more (`Extends`): then a longer path on one side makes
up for the longer organization on the other, and a longer body makes up for the path in the hash.
-/

namespace ServiceRuntime.Idempotency

open GoStrings Transition

/-! ## Scopes and hashes -/

theorem defaultScope_eq {r : HttpRequest} {organizationID : String}
    (horg : r.organizationID = some organizationID) (hblank : trimSpace organizationID ≠ "") :
    defaultScope r = .ok (organizationID ++ ":" ++ r.method ++ ":" ++ r.path) := by
  rw [defaultScope, horg]
  exact if_neg hblank

theorem toList_scope (organizationID method path : String) :
    (organizationID ++ ":" ++ method ++ ":" ++ path).toList =
      organizationID.toList ++ ':' :: (method.toList ++ ':' :: path.toList) := by
  simp [String.toList_append]

variable {sha256 : List UInt8 → List UInt8}

theorem body_eq_of_requestHash (hsha : Function.Injective sha256) {method path : String}
    {body body' : List UInt8}
    (h : requestHash sha256 method path body = requestHash sha256 method path body') :
    body = body' :=
  List.append_cancel_left (hsha (hexEncodeToString_injective h))

/-! ## Organizations that run into each other -/

/-- `long` is `short` followed by a colon and a method, and possibly by a colon and more. -/
def Extends (IsMethod : String → Prop) (short long : String) : Prop :=
  ∃ method, IsMethod method ∧
    (long = short ++ ":" ++ method ∨ ∃ rest, long = short ++ ":" ++ method ++ ":" ++ rest)

section Methods

variable {IsMethod : String → Prop} (hcolon : ∀ method, IsMethod method → ':' ∉ method.toList)
include hcolon

theorem extends_of_scope_eq {short long method method' path path' : String}
    (hmethod : IsMethod method) {t : List Char} (hlong : long.toList = short.toList ++ ':' :: t)
    (h : method.toList ++ ':' :: path.toList = t ++ ':' :: (method'.toList ++ ':' :: path'.toList)) :
    Extends IsMethod short long := by
  refine ⟨method, hmethod, ?_⟩
  rcases append_cons_of_not_mem (hcolon method hmethod) h.symm with ⟨ht, -⟩ | ⟨rest, ht⟩
  · left
    apply String.toList_injective
    simp [String.toList_append, hlong, ht]
  · right
    refine ⟨String.ofList rest, ?_⟩
    apply String.toList_injective
    simp [String.toList_append, hlong, ht]

theorem organization_eq_of_scope_eq {o₁ o₂ m₁ m₂ p₁ p₂ : String} (hm₁ : IsMethod m₁)
    (hm₂ : IsMethod m₂) (h₁₂ : ¬ Extends IsMethod o₁ o₂) (h₂₁ : ¬ Extends IsMethod o₂ o₁)
    (h : o₁ ++ ":" ++ m₁ ++ ":" ++ p₁ = o₂ ++ ":" ++ m₂ ++ ":" ++ p₂) :
    o₁ = o₂ ∧ m₁ = m₂ ∧ p₁ = p₂ := by
  have hchars := congrArg String.toList h
  rw [toList_scope, toList_scope] at hchars
  rcases append_cons_cases hchars with ⟨ho, hrest⟩ | ⟨t, hlong, hrest⟩ | ⟨t, hlong, hrest⟩
  -- the methods are the same too, since both end at their first colon
  · have hboth := append_cons_of_not_mem (hcolon m₂ hm₂) hrest
    rcases hboth with ⟨hm, hp⟩ | ⟨t, ht⟩
    · exact ⟨String.toList_injective ho, String.toList_injective hm, String.toList_injective hp⟩
    · refine absurd ?_ (hcolon m₁ hm₁)
      rw [ht]
      exact List.mem_append_right _ List.mem_cons_self
  · exact absurd (extends_of_scope_eq hcolon hm₁ hlong hrest) h₁₂
  · exact absurd (extends_of_scope_eq hcolon hm₂ hlong hrest) h₂₁

end Methods

/-- Requests of the two organizations with the same scope and the same hash are the same. -/
def Separated (IsMethod : String → Prop) (sha256 : List UInt8 → List UInt8) (o₁ o₂ : String) :
    Prop :=
  ∀ (r₁ r₂ : HttpRequest) (b₁ b₂ : List UInt8), r₁.organizationID = some o₁ →
    r₂.organizationID = some o₂ → IsMethod r₁.method → IsMethod r₂.method → r₁.body = some b₁ →
    r₂.body = some b₂ → defaultScope r₁ = defaultScope r₂ →
    requestHash sha256 r₁.method r₁.path b₁ = requestHash sha256 r₂.method r₂.path b₂ →
      o₁ = o₂ ∧ r₁.method = r₂.method ∧ r₁.path = r₂.path ∧ b₁ = b₂

theorem Separated.symm {IsMethod : String → Prop} {o₁ o₂ : String}
    (h : Separated IsMethod sha256 o₁ o₂) : Separated IsMethod sha256 o₂ o₁ := by
  intro r₂ r₁ b₂ b₁ ho₂ ho₁ hm₂ hm₁ hb₂ hb₁ hscope hhash
  obtain ⟨ho, hm, hp, hb⟩ := h r₁ r₂ b₁ b₂ ho₁ ho₂ hm₁ hm₂ hb₁ hb₂ hscope.symm hhash.symm
  exact ⟨ho.symm, hm.symm, hp.symm, hb.symm⟩

/-- An organization that extends another one has a request in common with it: the path of the
    shorter one repeats what the longer one adds, and so does the body of the longer one. -/
theorem Extends.not_separated {IsMethod : String → Prop} (sha256 : List UInt8 → List UInt8)
    {short long : String} (hshort : trimSpace short ≠ "") (hlong : trimSpace long ≠ "")
    (h : Extends IsMethod short long) : ¬ Separated IsMethod sha256 short long := by
  intro hsep
  obtain ⟨method, hmethod, hcases⟩ := h
  -- in both cases the longer organization is asked for `path` and adds `extra` to the shorter
  obtain ⟨path, extra, hlongEq, hextra⟩ : ∃ path extra, long = short ++ ":" ++ extra ∧
      extra ++ ":" ++ method ++ ":" ++ path = method ++ ":" ++ path ++ ":" ++ extra := by
    rcases hcases with rfl | ⟨rest, rfl⟩
    · exact ⟨method, method, rfl, rfl⟩
    · exact ⟨rest, method ++ ":" ++ rest, by simp [String.append_assoc],
        by simp [String.append_assoc]⟩
  have hscope : defaultScope ⟨"", method, path ++ ":" ++ extra, some [], some short⟩ =
      defaultScope ⟨"", method, path, some (bytes (extra ++ ":")), some long⟩ := by
    rw [defaultScope_eq rfl hshort, defaultScope_eq rfl hlong, hlongEq]
    simp only [String.append_assoc] at hextra ⊢
    rw [hextra]
  have hhash : requestHash sha256 method (path ++ ":" ++ extra) [] =
      requestHash sha256 method path (bytes (extra ++ ":")) := by
    simp [requestHash, bytes, String.toList_append]
  obtain ⟨-, -, hpath, -⟩ := hsep _ _ _ _ rfl rfl hmethod hmethod rfl rfl hscope hhash
  have hlen := congrArg (fun s => s.toList.length) hpath
  simp [String.toList_append] at hlen

/-! ## Responses stay within a scope -/

def SameScope (q p : Prepared) : Prop := q.scope = p.scope ∧ q.key = p.key

theorem origins_sameScope {opts : Options} {s : Sys} (hs : (middleware opts sha256).Reachable s) :
    Origins SameScope s.store s.log := by
  refine System.Reachable.invariant (P := fun s => Origins SameScope s.store s.log) ?_ ?_ hs
  · rintro s rfl
    exact Origins.empty
  · intro s e s' horigins hstep
    refine (Step.of_step hstep).origins ?_ horigins
    intro i _ r _ row hrow
    obtain ⟨-, hscope, hkey⟩ := Store.get_eq_some_iff.mp hrow
    exact ⟨hscope.symm, hkey.symm⟩

theorem scopeFunc_of_prepare {cfg : Settings} {r : HttpRequest} {p : Prepared}
    (h : prepare cfg sha256 r = .ok p) : cfg.scopeFunc r = .ok p.scope := by
  simp only [prepare] at h
  split at h
  · cases h
  · split at h
    · cases h
    · rename_i scope hscope
      split at h
      · cases h
      · cases h
        exact hscope

/-! ## Main result -/

/-- **When two organizations are kept apart.** For organizations that are not blank, methods
    without a colon and a hash function without collisions:

    1. all their requests are told apart exactly if neither organization is the other one
       followed by a colon, a method, and possibly a colon and more
    2. in that case no request of the one is answered with a response stored by a request of the
       other, in any run of the middleware with the default scope -/
theorem tenants_separated_iff {IsMethod : String → Prop}
    (hcolon : ∀ method, IsMethod method → ':' ∉ method.toList)
    {sha256 : List UInt8 → List UInt8} (hsha : Function.Injective sha256) {o₁ o₂ : String}
    (h₁ : trimSpace o₁ ≠ "") (h₂ : trimSpace o₂ ≠ "") :
    (Separated IsMethod sha256 o₁ o₂ ↔ ¬ Extends IsMethod o₁ o₂ ∧ ¬ Extends IsMethod o₂ o₁) ∧
    (¬ Extends IsMethod o₁ o₂ ∧ ¬ Extends IsMethod o₂ o₁ → o₁ ≠ o₂ →
      ∀ opts : Options, opts.scopeFunc = none → ∀ s, (middleware opts sha256).Reachable s →
        ∀ newer i p result older r₁, s.log = newer ++ .replayed i p result :: older →
          prepare opts.withDefaults sha256 r₁ = .ok p → r₁.organizationID = some o₁ →
          IsMethod r₁.method →
            ∃ j q, Entry.completing j q result ∈ older ∧
              ∀ r₂, prepare opts.withDefaults sha256 r₂ = .ok q → IsMethod r₂.method →
                r₂.organizationID ≠ some o₂) := by
  constructor
  · constructor
    · intro hsep
      exact ⟨fun h => h.not_separated sha256 h₁ h₂ hsep,
        fun h => h.not_separated sha256 h₂ h₁ hsep.symm⟩
    · rintro ⟨h₁₂, h₂₁⟩ r₁ r₂ b₁ b₂ ho₁ ho₂ hm₁ hm₂ hb₁ hb₂ hscope hhash
      rw [defaultScope_eq ho₁ h₁, defaultScope_eq ho₂ h₂, Except.ok.injEq] at hscope
      obtain ⟨ho, hm, hp⟩ := organization_eq_of_scope_eq hcolon hm₁ hm₂ h₁₂ h₂₁ hscope
      rw [hm, hp] at hhash
      exact ⟨ho, hm, hp, body_eq_of_requestHash hsha hhash⟩
  · rintro ⟨h₁₂, h₂₁⟩ hne opts hdefault s hs newer i p result older r₁ hlog hr₁ ho₁ hm₁
    -- what is replayed was stored under the scope of the request, which names the organization
    have hjust := (origins_sameScope hs).justified
    rw [hlog] at hjust
    obtain ⟨j, q, ⟨hscope, -⟩, hcompleting⟩ := hjust.of_split
    refine ⟨j, q, hcompleting, ?_⟩
    intro r₂ hr₂ hm₂ ho₂
    have hfunc : opts.withDefaults.scopeFunc = defaultScope := by
      simp [Options.withDefaults, hdefault]
    have hs₁ := scopeFunc_of_prepare hr₁
    have hs₂ := scopeFunc_of_prepare hr₂
    rw [hfunc, defaultScope_eq ho₁ h₁, Except.ok.injEq] at hs₁
    rw [hfunc, defaultScope_eq ho₂ h₂, Except.ok.injEq, hscope, ← hs₁] at hs₂
    exact hne (organization_eq_of_scope_eq hcolon hm₁ hm₂ h₁₂ h₂₁ hs₂.symm).1

theorem tenants_separated_acme_globex :
    Separated (fun method => ':' ∉ method.toList) id "acme" "globex" := by
  refine (tenants_separated_iff (fun _ h => h) Function.injective_id (by decide)
    (by decide)).1.mpr ⟨?_, ?_⟩
  · rintro ⟨method, -, h | ⟨rest, h⟩⟩
    · simpa [String.toList_append] using congrArg (fun s => s.toList.head?) h
    · simpa [String.toList_append] using congrArg (fun s => s.toList.head?) h
  · rintro ⟨method, -, h | ⟨rest, h⟩⟩
    · simpa [String.toList_append] using congrArg (fun s => s.toList.head?) h
    · simpa [String.toList_append] using congrArg (fun s => s.toList.head?) h

/-- A request of the organization `acme`. -/
def acmeRequest : HttpRequest := ⟨"k", "POST", "/:POST:/", some [98], some "acme"⟩

/-- A request of the organization `acme:POST:/` with the same key. -/
def acmePostRequest : HttpRequest :=
  ⟨"k", "POST", "/", some [80, 79, 83, 84, 58, 47, 58, 98], some "acme:POST:/"⟩

/-- The first organization's request completes; then comes the second one's. -/
def acmeThenAcmePost : List Event :=
  [.arrive acmeRequest 10, .act 0 .throttle, .act 0 (.cleanup none), .act 0 (.select none),
    .act 0 (.insert none), .act 0 .start, .act 0 (.finish 201 "" [65]),
    .act 0 (.complete 11 none), .arrive acmePostRequest 12, .act 1 .throttle,
    .act 1 (.select none)]

/-- The two requests have one scope and one hash, and the second is answered with the response
    to the first. -/
theorem tenant_answered_for_another :
    ¬ Separated (fun method => ':' ∉ method.toList) id "acme" "acme:POST:/" ∧
    ∃ s p, (middleware ⟨GoTime.Duration.second, GoTime.Duration.second, none⟩ id).run initial
        acmeThenAcmePost = some s ∧
      prepare (Options.withDefaults ⟨GoTime.Duration.second, GoTime.Duration.second, none⟩) id
        acmeRequest = .ok p ∧
      prepare (Options.withDefaults ⟨GoTime.Duration.second, GoTime.Duration.second, none⟩) id
        acmePostRequest = .ok p ∧
      s.log.head? = some (.replayed 1 p ⟨201, "application/json", [65]⟩) := by
  constructor
  · intro hsep
    obtain ⟨ho, -⟩ := hsep acmeRequest acmePostRequest _ _ rfl rfl (by decide) (by decide) rfl rfl
      rfl rfl
    revert ho
    decide
  · exact ⟨_, _, rfl, rfl, rfl, rfl⟩

end ServiceRuntime.Idempotency
