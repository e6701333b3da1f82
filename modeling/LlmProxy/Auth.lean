import LlmProxy.Http
import LlmProxy.Storage.ApiKeys

/-! Package `auth`: which API key a request comes with. -/

namespace LlmProxy

/-- Whether `ExpiresAt` is set and lies before the time `now`. -/
def APIKey.expired (k : APIKey) (now : Int) : Bool :=
  match k.expiresAt with
  | none => false
  | some t => t < now

namespace Auth

/-- `ErrUnauthorized` and `ErrExpired`. -/
inductive AuthError
  | unauthorized
  | expired
  deriving DecidableEq

def bearer : List Char := "Bearer ".toList

/-- `ExtractToken`. -/
def extractToken (h : Header) : Option String :=
  let header := (h.get "Authorization").headD ""
  if header = "" then none
  else if ¬ bearer <+: header.toList then none
  else
    let token := String.ofList (header.toList.drop bearer.length)
    if token = "" then none else some token

/-- `Authenticate` at the time `now`, with the look-up of the storage. -/
def authenticate (getAPIKeyByValue : String → Except GoError (Option APIKey)) (now : Int)
    (token : String) : Except AuthError APIKey :=
  match getAPIKeyByValue token with
  | .error _ => .error .unauthorized
  | .ok none => .error .unauthorized
  | .ok (some key) =>
    if !key.enabled then .error .unauthorized
    else if key.expired now then .error .expired
    else .ok key

/-- `CheckModelAllowed`. -/
def checkModelAllowed (key : APIKey) (modelAlias : String) : Bool :=
  key.allowModels.isEmpty || key.allowModels.any (· = modelAlias)

theorem authenticate_eq_ok {getAPIKeyByValue : String → Except GoError (Option APIKey)} {now : Int}
    {token : String} {key : APIKey} :
    authenticate getAPIKeyByValue now token = .ok key ↔
      getAPIKeyByValue token = .ok (some key) ∧ key.enabled = true ∧ key.expired now = false := by
  unfold authenticate
  split
  · next h => simp [h]
  · next h => simp [h]
  · next k h =>
    rw [h]
    constructor
    · intro hok
      split at hok
      · cases hok
      · next henabled =>
        split at hok
        · cases hok
        · next hexpired =>
          obtain rfl := Except.ok.inj hok
          exact ⟨rfl, by simpa using henabled, by simpa using hexpired⟩
    · rintro ⟨hfound, henabled, hexpired⟩
      obtain rfl := Option.some.inj (Except.ok.inj hfound)
      simp [henabled, hexpired]

end Auth

end LlmProxy
