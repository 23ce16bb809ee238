import Prefork.WebSocket.Handshake

namespace Prefork.WebSocket

open Http (Request Response)

namespace Handshake

structure Asks (r : Request) : Prop where
  version : r.version = .http11
  connection : ∃ value ∈ r.headers.getAll "connection", ∃ item ∈ Text.pieces [','] value.toList,
    (Text.trim item).map Char.toLower = "upgrade".toList
  upgrade : ∃ value, r.headers.get? "upgrade" = some value ∧
    (Text.trim value.toList).map Char.toLower = "websocket".toList

def Versioned (r : Request) : Prop :=
  ∃ value, r.headers.get? "sec-websocket-version" = some value ∧
    Text.trim value.toList = "13".toList

def Keyed (r : Request) : Prop :=
  ∃ key, r.headers.get? "sec-websocket-key" = some key ∧ Text.trim key.toList ≠ []

structure Valid (r : Request) : Prop extends Asks r where
  versioned : Versioned r
  keyed : Keyed r

variable {r : Request}

theorem isUpgrade_iff : isUpgrade r = true ↔ Asks r := by
  have hconnection : r.headers.hasToken "connection" "upgrade" = true ↔
      ∃ value ∈ r.headers.getAll "connection", ∃ item ∈ Text.pieces [','] value.toList,
        (Text.trim item).map Char.toLower = "upgrade".toList := by
    have hfold : Text.fold "upgrade" = "upgrade".toList := by decide
    simp only [Http.Headers.hasToken, List.any_eq_true, beq_iff_eq, hfold]
  have hfold : Text.fold "websocket" = "websocket".toList := by decide
  rw [isUpgrade, Bool.and_eq_true, Bool.and_eq_true, beq_iff_eq, hconnection, hfold]
  constructor
  · intro ⟨⟨hversion, hlisted⟩, hupgrade⟩
    cases hvalue : r.headers.get? "upgrade" with
    | none =>
      rw [hvalue] at hupgrade
      cases hupgrade
    | some value =>
      rw [hvalue] at hupgrade
      exact ⟨hversion, hlisted, value, hvalue, beq_iff_eq.1 hupgrade⟩
  · intro h
    obtain ⟨value, hvalue, htrim⟩ := h.upgrade
    rw [hvalue]
    exact ⟨⟨h.version, h.connection⟩, beq_iff_eq.2 htrim⟩

theorem versioned_iff :
    Versioned r ↔ (r.headers.get? "sec-websocket-version").map (fun v ↦ Text.trim v.toList) =
      some version.toList := by
  rw [Versioned, Option.map_eq_some_iff, version]

theorem accept_of_not_versioned (h : ¬ Versioned r) :
    accept r = .error (.unsupportedVersion (r.headers.get? "sec-websocket-version")) := by
  rw [versioned_iff] at h
  rw [accept, if_pos h]

theorem accept_of_not_keyed (h : Versioned r) (hk : ¬ Keyed r) :
    accept r = .error .missingKey := by
  rw [versioned_iff] at h
  rw [accept, if_neg (not_not_intro h)]
  cases hkey : r.headers.get? "sec-websocket-key" with
  | none => rfl
  | some key =>
    have hblank : Text.trim key.toList = [] :=
      Decidable.byContradiction fun hne ↦ hk ⟨key, hkey, hne⟩
    rw [Option.map_some, hblank]

theorem accept_of_keyed (h : Versioned r) (hk : Keyed r) :
    ∃ response, accept r = .ok response ∧ response.status = .switchingProtocols := by
  rw [versioned_iff] at h
  obtain ⟨key, hkey, hne⟩ := hk
  rw [accept, if_neg (not_not_intro h), hkey, Option.map_some]
  cases htrim : Text.trim key.toList with
  | nil => exact absurd htrim hne
  | cons c cs => exact ⟨_, rfl, rfl⟩

theorem Asks.valid_of_accept {response : Response} (h : Asks r) (ha : accept r = .ok response) :
    Valid r := by
  by_cases hv : Versioned r
  · by_cases hk : Keyed r
    · exact ⟨h, hv, hk⟩
    · rw [accept_of_not_keyed hv hk] at ha
      cases ha
  · rw [accept_of_not_versioned hv] at ha
    cases ha

theorem Valid.accept (h : Valid r) :
    ∃ response, accept r = .ok response ∧ response.status = .switchingProtocols :=
  accept_of_keyed h.versioned h.keyed

theorem not_valid_of_isUpgrade (h : isUpgrade r = false) : ¬ Valid r := by
  intro hv
  rw [isUpgrade_iff.2 hv.toAsks] at h
  cases h

theorem not_valid_of_accept {e : HandshakeError} (h : accept r = .error e) : ¬ Valid r := by
  intro hv
  obtain ⟨response, ha, -⟩ := hv.accept
  rw [ha] at h
  cases h

end Handshake

theorem HandshakeError.status_response_ne (e : HandshakeError) (version : Http.Version) :
    (e.response version).status ≠ .switchingProtocols := by
  cases e with
  | unsupportedVersion given => exact nofun
  | missingKey => exact nofun

end Prefork.WebSocket
