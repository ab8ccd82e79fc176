import ArmaraOS.Lib.Machine
import ArmaraOS.Lib.Overlap
import ArmaraOS.Lib.Table

/-!
Pairing of devices (`openfang-kernel/src/pairing.rs`).

Several calls may be under way at once, and each access to a map is a step of its own: between the
check of a limit and the insertion that it was made for, other calls may go on. The persistence
callback, which comes after the maps and whose errors are only logged, and the push notifications
are left out.
-/

namespace ArmaraOS.Kernel

open ArmaraOS.Lib

/-! ### Devices, requests and calls -/

/-- `PairedDevice`. Times are in nanoseconds. -/
structure PairedDevice where
  deviceId : String
  displayName : String
  platform : String
  pairedAt : Int
  lastSeen : Int
  pushToken : Option String
deriving DecidableEq

/-- `PairingRequest`. -/
structure PairingRequest where
  token : String
  createdAt : Int
  expiresAt : Int
deriving DecidableEq

/-- `PairingConfig`, without the push provider. -/
structure PairingConfig where
  enabled : Bool := false
  maxDevices : Nat := 10
  tokenExpirySecs : Nat := 300

/-- `MAX_PENDING_REQUESTS`. -/
def maxPendingRequests : Nat := 5

/-- Where a call is that has started and has not returned. -/
inductive PairingCall where
  /-- `create_pairing_request` has met too many requests. -/
  | full
  /-- It has cleaned the expired ones. -/
  | cleaned
  /-- It may insert a request. -/
  | admitted
  /-- `complete_pairing` has found its token. -/
  | found (request : PairingRequest) (device : PairedDevice)
  /-- The token has expired. -/
  | expired (request : PairingRequest)
  /-- The token had not expired. -/
  | unexpired (request : PairingRequest) (device : PairedDevice)
  /-- There is room for the device. -/
  | accepted (request : PairingRequest) (device : PairedDevice)
  /-- The token is removed. -/
  | consumed (request : PairingRequest) (device : PairedDevice)
deriving DecidableEq

/-- What a call returns. -/
inductive PairingAnswer where
  | request (request : PairingRequest)
  | device (device : PairedDevice)
  | removed

/-- A device that was stored, and the request that its token is from. -/
structure Paired where
  request : PairingRequest
  device : PairedDevice

/-- `PairingManager`, with the calls under way. The last two fields record what happened: the
requests that were inserted and the devices that were stored. -/
structure PairingManager where
  now : Int
  pending : Table PairingRequest.token
  devices : Table PairedDevice.deviceId
  calls : List PairingCall
  returned : List (Except String PairingAnswer)
  issued : List PairingRequest
  paired : List Paired

/-- `PairingManager::new` with `load_devices`. -/
def PairingManager.load (now : Int) (devices : Table PairedDevice.deviceId) : PairingManager where
  now := now
  pending := .empty
  devices := devices
  calls := []
  returned := []
  issued := []
  paired := []

/-! ### Steps -/

/-- A call starts, the call at a place goes on, where it may need a random token, or the clock is
set. -/
inductive PairingOp where
  | clock (now : Int)
  | createPairingRequest
  | completePairing (token : String) (device : PairedDevice)
  | removeDevice (deviceId : String)
  | proceed (place : Nat) (token : String)

namespace PairingManager

/-- A call is under way. -/
def await (s : PairingManager) (call : PairingCall) : PairingManager :=
  { s with calls := call :: s.calls }

/-- A call returns. -/
def answer (s : PairingManager) (result : Except String PairingAnswer) : PairingManager :=
  { s with returned := result :: s.returned }

/-- `clean_expired`. -/
def cleanExpired (s : PairingManager) : PairingManager :=
  { s with pending := s.pending.filter fun request => decide (s.now < request.expiresAt) }

/-- The request that a call inserts. -/
def newRequest (s : PairingManager) (config : PairingConfig) (token : String) : PairingRequest :=
  ⟨token, s.now, s.now + config.tokenExpirySecs * 1000000000⟩

/-- `create_pairing_request`, up to its first look at the requests. -/
def createPairingRequest (config : PairingConfig) (s : PairingManager) : PairingManager :=
  if !config.enabled then s.answer (.error "Device pairing is disabled")
  else if maxPendingRequests ≤ s.pending.size then s.await .full
  else s.await .admitted

/-- `complete_pairing`, up to its look for the token. -/
def completePairing (s : PairingManager) (token : String) (device : PairedDevice) :
    PairingManager :=
  match s.pending.find token with
  | none => s.answer (.error "Invalid or expired pairing token")
  | some request => s.await (.found request device)

/-- `remove_device`. -/
def removeDevice (s : PairingManager) (deviceId : String) : PairingManager :=
  match s.devices.find deviceId with
  | none => s.answer (.error ("Device '" ++ deviceId ++ "' not found"))
  | some _ => { s with devices := s.devices.erase deviceId }.answer (.ok .removed)

/-- The step of a call that was taken out of those under way. -/
def goOn (config : PairingConfig) (s : PairingManager) (token : String) :
    PairingCall → PairingManager
  | .full => s.cleanExpired.await .cleaned
  | .cleaned =>
      if maxPendingRequests ≤ s.pending.size then
        s.answer (.error "Too many pending pairing requests. Try again later.")
      else s.await .admitted
  | .admitted =>
      let request := s.newRequest config token
      { s with
        pending := s.pending.insert request
        issued := request :: s.issued }.answer (.ok (.request request))
  | .found request device =>
      if request.expiresAt < s.now then s.await (.expired request)
      else s.await (.unexpired request device)
  | .expired request =>
      { s with pending := s.pending.erase request.token }.answer
        (.error "Pairing token has expired")
  | .unexpired request device =>
      if config.maxDevices ≤ s.devices.size then
        s.answer (.error ("Maximum paired devices (" ++ toString config.maxDevices ++
          ") reached. Remove a device first."))
      else s.await (.accepted request device)
  | .accepted request device =>
      { s with pending := s.pending.erase request.token }.await
        (.consumed request device)
  | .consumed request device =>
      { s with
        devices := s.devices.insert device
        paired := ⟨request, device⟩ :: s.paired }.answer (.ok (.device device))

end PairingManager

/-- The effect of a step. -/
def pairingStep (config : PairingConfig) (s : PairingManager) : PairingOp → PairingManager
  | .clock now => { s with now := now }
  | .createPairingRequest => s.createPairingRequest config
  | .completePairing token device => s.completePairing token device
  | .removeDevice deviceId => s.removeDevice deviceId
  | .proceed place token =>
      match s.calls[place]? with
      | none => s
      | some call => { s with calls := s.calls.eraseIdx place }.goOn config token call

/-! ### Limits and tokens -/

namespace PairingCall

/-- It may insert a request without looking again. -/
def isAdmitted : PairingCall → Bool
  | .admitted => true
  | _ => false

/-- It may store a device without looking again. -/
def isAccepted : PairingCall → Bool
  | .accepted _ _ | .consumed _ _ => true
  | _ => false

/-- The request whose token it found, while the token may still pair a device. -/
def request : PairingCall → Option PairingRequest
  | .found request _ | .unexpired request _ | .accepted request _ | .consumed request _ =>
      some request
  | _ => none

/-- It found the token of a request. -/
def holds (request : PairingRequest) (call : PairingCall) : Bool := call.request == some request

/-- It has removed its token and has yet to store the device. -/
def isConsumed : PairingCall → Bool
  | .consumed _ _ => true
  | _ => false

end PairingCall

section Bounds

variable (config : PairingConfig) (p loaded : Nat)

/-- What holds of the requests, the devices, the calls under way, the requests that were inserted
and the devices that were stored while at most `p` calls are under way at a time. -/
structure PairingBounded (pending : Table PairingRequest.token)
    (devices : Table PairedDevice.deviceId) (calls : List PairingCall)
    (issued : List PairingRequest) (paired : List Paired) : Prop where
  overlap : calls.length ≤ p
  requestLimit : WithinLimit maxPendingRequests p 0 pending.size
    (calls.countP PairingCall.isAdmitted)
  deviceLimit : WithinLimit config.maxDevices p loaded devices.size
    (calls.countP PairingCall.isAccepted)
  distinct : (issued.map PairingRequest.token).Nodup
  known : ∀ request ∈ pending.entries, request ∈ issued
  held : ∀ call ∈ calls, ∀ request ∈ call.request, request ∈ issued
  used : ∀ entry ∈ paired, entry.request ∈ issued
  unused : ∀ request ∈ pending.entries, ∀ entry ∈ paired, entry.request ≠ request
  spent : ∀ call ∈ calls, call.isConsumed = true → ∀ request ∈ call.request,
    request ∉ pending.entries
  uses : ∀ request, (paired.countP fun entry => entry.request == request) +
    calls.countP (PairingCall.holds request) ≤ p

/-- The overlap is at most `p`, and random tokens are new. -/
def PairingApart (s : PairingManager) (op : PairingOp) : Prop :=
  (pairingStep config s op).calls.length ≤ p ∧
    match op with
    | .proceed place token =>
        s.calls[place]? = some .admitted → ∀ request ∈ s.issued, request.token ≠ token
    | _ => True

namespace PairingBounded

variable {config p loaded} {pending : Table PairingRequest.token}
  {devices : Table PairedDevice.deviceId} {calls calls' : List PairingCall}
  {issued : List PairingRequest} {paired : List Paired} {call call' : PairingCall}

theorem of_perm (h : PairingBounded config p loaded pending devices calls issued paired)
    (hperm : calls.Perm calls') :
    PairingBounded config p loaded pending devices calls' issued paired :=
  { h with
    overlap := hperm.length_eq ▸ h.overlap
    requestLimit := hperm.countP_eq PairingCall.isAdmitted ▸ h.requestLimit
    deviceLimit := hperm.countP_eq PairingCall.isAccepted ▸ h.deviceLimit
    held := fun call hcall => h.held call (hperm.mem_iff.mpr hcall)
    spent := fun call hcall => h.spent call (hperm.mem_iff.mpr hcall)
    uses := fun request => hperm.countP_eq (PairingCall.holds request) ▸ h.uses request }

/-- A call that is no longer under way. -/
theorem drop (h : PairingBounded config p loaded pending devices (call :: calls) issued paired) :
    PairingBounded config p loaded pending devices calls issued paired := by
  have hcount : ∀ n (q : PairingCall → Bool), n + calls.countP q ≤ n + (call :: calls).countP q :=
    fun n _ => Nat.add_le_add_left (List.sublist_cons_self call calls).countP_le n
  exact { h with
    overlap := Nat.le_of_succ_le h.overlap
    requestLimit := h.requestLimit.mono (hcount _ _)
    deviceLimit := h.deviceLimit.mono (hcount _ _)
    held := fun other hother => h.held other (List.mem_cons_of_mem _ hother)
    spent := fun other hother => h.spent other (List.mem_cons_of_mem _ hother)
    uses := fun request => Nat.le_trans (hcount _ _) (h.uses request) }

/-- Fewer requests. -/
theorem filter (h : PairingBounded config p loaded pending devices calls issued paired)
    (keep : PairingRequest → Bool) :
    PairingBounded config p loaded (pending.filter keep) devices calls issued paired :=
  { h with
    requestLimit := h.requestLimit.mono (Nat.add_le_add_right (Table.size_filter_le _ _) _)
    known := fun request hrequest => h.known request (Table.mem_filter.mp hrequest).1
    unused := fun request hrequest => h.unused request (Table.mem_filter.mp hrequest).1
    spent := fun call hcall hconsumed request hrequest hmem =>
      h.spent call hcall hconsumed request hrequest (Table.mem_filter.mp hmem).1 }

/-- A call that starts or goes on, with the limits that it has looked at. -/
theorem add (h : PairingBounded config p loaded pending devices calls issued paired)
    (hoverlap : calls.length < p)
    (hadmitted : call.isAdmitted = true → pending.size < maxPendingRequests)
    (haccepted : call.isAccepted = true → devices.size < config.maxDevices)
    (hconsumed : call.isConsumed = false)
    (hrequest : ∀ request ∈ call.request, request ∈ issued ∧
      (paired.countP fun entry => entry.request == request) +
        calls.countP (PairingCall.holds request) < p) :
    PairingBounded config p loaded pending devices (call :: calls) issued paired := by
  have hcount : ∀ q : PairingCall → Bool, (call :: calls).countP q ≤ p := fun q =>
    Nat.le_trans List.countP_le_length hoverlap
  refine { h with
    overlap := hoverlap, requestLimit := ?requestLimit, deviceLimit := ?deviceLimit
    held := ?held, spent := ?spent, uses := ?uses }
  case requestLimit =>
    by_cases hcall : call.isAdmitted = true
    · exact .checked (hadmitted hcall) (hcount _)
    · rw [List.countP_cons_of_neg hcall]
      exact h.requestLimit
  case deviceLimit =>
    by_cases hcall : call.isAccepted = true
    · exact .checked (haccepted hcall) (hcount _)
    · rw [List.countP_cons_of_neg hcall]
      exact h.deviceLimit
  case held =>
    intro other hother request hmem
    rcases List.mem_cons.mp hother with rfl | hother
    · exact (hrequest request hmem).1
    · exact h.held other hother request hmem
  case spent =>
    intro other hother hspent
    rcases List.mem_cons.mp hother with rfl | hother
    · rw [hconsumed] at hspent
      cases hspent
    · exact h.spent other hother hspent
  case uses =>
    intro request
    by_cases hcall : call.holds request = true
    · rw [List.countP_cons_of_pos hcall]
      exact (hrequest request (beq_iff_eq.mp hcall)).2
    · rw [List.countP_cons_of_neg hcall]
      exact h.uses request

/-- A call that goes on with the same request, with the limits that it has looked at. -/
theorem replace (h : PairingBounded config p loaded pending devices (call :: calls) issued paired)
    (hadmitted : call'.isAdmitted = true → pending.size < maxPendingRequests)
    (haccepted : call'.isAccepted = true → devices.size < config.maxDevices)
    (hconsumed : call'.isConsumed = false)
    (hrequest : ∀ request ∈ call'.request, call.request = some request) :
    PairingBounded config p loaded pending devices (call' :: calls) issued paired := by
  refine h.drop.add h.overlap hadmitted haccepted hconsumed fun request hmem => ?_
  have hcall := hrequest request hmem
  have hholds : call.holds request = true := beq_iff_eq.mpr hcall
  have huses := h.uses request
  rw [List.countP_cons_of_pos hholds] at huses
  exact ⟨h.held call List.mem_cons_self request hcall, huses⟩

/-- A request with a new token is inserted. -/
theorem issue
    (h : PairingBounded config p loaded pending devices (.admitted :: calls) issued paired)
    {request : PairingRequest} (hfresh : ∀ other ∈ issued, other.token ≠ request.token) :
    PairingBounded config p loaded (pending.insert request) devices calls (request :: issued)
      paired := by
  have hdrop := h.drop
  have hnew : request ∉ issued := fun hmem => hfresh request hmem rfl
  refine { hdrop with
    requestLimit := ?requestLimit, distinct := ?distinct, known := ?known, held := ?held
    used := ?used, unused := ?unused, spent := ?spent }
  case requestLimit =>
    have hsize := Table.size_insert_le pending request
    refine h.requestLimit.mono ?_
    rw [List.countP_cons_of_pos rfl]
    omega
  case distinct =>
    rw [List.map_cons, List.nodup_cons]
    refine ⟨fun hmem => ?_, h.distinct⟩
    obtain ⟨other, hother, htoken⟩ := List.mem_map.mp hmem
    exact hfresh other hother htoken
  case known =>
    intro other hother
    rcases Table.mem_insert.mp hother with rfl | ⟨hother, -⟩
    · exact List.mem_cons_self
    · exact List.mem_cons_of_mem _ (h.known other hother)
  case held =>
    exact fun call hcall other hother => List.mem_cons_of_mem _ (hdrop.held call hcall other hother)
  case used => exact fun entry hentry => List.mem_cons_of_mem _ (h.used entry hentry)
  case unused =>
    intro other hother entry hentry
    rcases Table.mem_insert.mp hother with rfl | ⟨hother, -⟩
    · exact fun heq => hnew (heq ▸ h.used entry hentry)
    · exact h.unused other hother entry hentry
  case spent =>
    intro call hcall hconsumed other hother hmem
    rcases Table.mem_insert.mp hmem with rfl | ⟨hmem, -⟩
    · exact hnew (hdrop.held call hcall other hother)
    · exact hdrop.spent call hcall hconsumed other hother hmem

/-- A call finds the token of a request. -/
theorem find (h : PairingBounded config p loaded pending devices calls issued paired)
    {request : PairingRequest} (hrequest : request ∈ pending.entries) (device : PairedDevice)
    (hoverlap : calls.length < p) :
    PairingBounded config p loaded pending devices (.found request device :: calls) issued
      paired := by
  refine h.add hoverlap (fun h => by cases h) (fun h => by cases h) rfl fun other hother => ?_
  obtain rfl := Option.some.inj hother
  have hnone : (paired.countP fun entry => entry.request == request) = 0 := by
    rw [List.countP_eq_zero]
    exact fun entry hentry heq => h.unused request hrequest entry hentry (beq_iff_eq.mp heq)
  rw [hnone, Nat.zero_add]
  exact ⟨h.known request hrequest, Nat.lt_of_le_of_lt List.countP_le_length hoverlap⟩

/-- A device is removed. -/
theorem erase (h : PairingBounded config p loaded pending devices calls issued paired)
    (deviceId : String) :
    PairingBounded config p loaded pending (devices.erase deviceId) calls issued paired :=
  { h with
    deviceLimit := h.deviceLimit.mono (Nat.add_le_add_right (Table.size_filter_le _ _) _) }

/-- A token is removed, for a device that there is room for. -/
theorem consume {request : PairingRequest} {device : PairedDevice}
    (h : PairingBounded config p loaded pending devices
      (.accepted request device :: calls) issued paired) :
    PairingBounded config p loaded (pending.erase request.token) devices
      (.consumed request device :: calls) issued paired := by
  have hdrop := h.drop.filter fun other => other.token != request.token
  refine { hdrop with
    overlap := h.overlap, deviceLimit := h.deviceLimit, uses := h.uses
    held := ?held, spent := ?spent }
  case held =>
    intro call hcall
    rcases List.mem_cons.mp hcall with rfl | hcall
    · exact h.held (.accepted request device) List.mem_cons_self
    · exact hdrop.held call hcall
  case spent =>
    intro call hcall hconsumed other hother
    rcases List.mem_cons.mp hcall with rfl | hcall
    · obtain rfl := Option.some.inj hother
      exact fun hmem => (Table.mem_erase.mp hmem).2 rfl
    · exact hdrop.spent call hcall hconsumed other hother

/-- A device is stored. -/
theorem store {request : PairingRequest} {device : PairedDevice}
    (h : PairingBounded config p loaded pending devices
      (.consumed request device :: calls) issued paired) :
    PairingBounded config p loaded pending (devices.insert device) calls issued
      (⟨request, device⟩ :: paired) := by
  have hdrop := h.drop
  refine { hdrop with
    deviceLimit := ?deviceLimit, used := ?used, unused := ?unused, uses := ?uses }
  case deviceLimit =>
    have hsize := Table.size_insert_le devices device
    refine h.deviceLimit.mono ?_
    rw [List.countP_cons_of_pos rfl]
    omega
  case used =>
    intro entry hentry
    rcases List.mem_cons.mp hentry with rfl | hentry
    · exact h.held _ List.mem_cons_self request rfl
    · exact h.used entry hentry
  case unused =>
    intro other hother entry hentry
    rcases List.mem_cons.mp hentry with rfl | hentry
    · rintro rfl
      exact h.spent _ List.mem_cons_self rfl request rfl hother
    · exact h.unused other hother entry hentry
  case uses =>
    intro other
    have huses := h.uses other
    have hsame : (PairingCall.consumed request device).holds other =
        (request == other) := by
      simp [PairingCall.holds, PairingCall.request]
    rw [List.countP_cons, hsame] at huses
    rw [List.countP_cons, Nat.add_right_comm, Nat.add_assoc]
    exact huses

end PairingBounded

/-- **Step.** A call goes on. -/
theorem PairingManager.goOn_bounded {config : PairingConfig} {p loaded : Nat} {s : PairingManager}
    {call : PairingCall} {token : String}
    (h : PairingBounded config p loaded s.pending s.devices (call :: s.calls) s.issued s.paired)
    (hfresh : call = .admitted → ∀ request ∈ s.issued, request.token ≠ token)
    {s' : PairingManager} (hs' : s' = s.goOn config token call) :
    PairingBounded config p loaded s'.pending s'.devices s'.calls s'.issued s'.paired := by
  have hnone : ∀ call' : PairingCall, call'.isAdmitted = false → call'.isAccepted = false →
      call'.isConsumed = false → (∀ request ∈ call'.request, call.request = some request) →
      PairingBounded config p loaded s.pending s.devices (call' :: s.calls) s.issued s.paired := by
    intro call' hadmitted haccepted hconsumed hrequest
    exact h.replace (fun h => by simp [hadmitted] at h) (fun h => by simp [haccepted] at h)
      hconsumed hrequest
  subst hs'
  cases call with
  | full => exact (hnone .cleaned rfl rfl rfl fun _ h => by cases h).filter _
  | cleaned =>
      rw [PairingManager.goOn]
      split
      · exact h.drop
      · rename_i hroom
        exact h.replace (fun _ => Nat.lt_of_not_le hroom) (fun h => by cases h) rfl
          fun _ h => by cases h
  | admitted => exact h.issue (hfresh rfl)
  | found request device =>
      rw [PairingManager.goOn]
      split
      · exact hnone (.expired request) rfl rfl rfl fun _ h => by cases h
      · exact hnone (.unexpired request device) rfl rfl rfl fun _ h => h
  | expired request => exact h.drop.filter _
  | unexpired request device =>
      rw [PairingManager.goOn]
      split
      · exact h.drop
      · rename_i hroom
        exact h.replace (fun h => by cases h) (fun _ => Nat.lt_of_not_le hroom) rfl fun _ h => h
  | accepted request device => exact h.consume
  | consumed request device => exact h.store

/-- **Step.** -/
theorem pairingStep_bounded {config : PairingConfig} {p loaded : Nat} {s : PairingManager}
    {op : PairingOp}
    (h : PairingBounded config p loaded s.pending s.devices s.calls s.issued s.paired)
    (hapart : PairingApart config p s op) {s' : PairingManager}
    (hs' : s' = pairingStep config s op) :
    PairingBounded config p loaded s'.pending s'.devices s'.calls s'.issued s'.paired := by
  obtain ⟨hoverlap, hfresh⟩ := hapart
  cases op with
  | clock now =>
      subst hs'
      exact h
  | createPairingRequest =>
      subst hs'
      simp only [pairingStep, PairingManager.createPairingRequest] at hoverlap ⊢
      split
      · exact h
      rename_i henabled
      rw [if_neg henabled] at hoverlap
      split
      · rename_i hfull
        rw [if_pos hfull] at hoverlap
        exact h.add hoverlap (fun h => by cases h) (fun h => by cases h) rfl fun _ h => by cases h
      · rename_i hroom
        rw [if_neg hroom] at hoverlap
        exact h.add hoverlap (fun _ => Nat.lt_of_not_le hroom) (fun h => by cases h) rfl
          fun _ h => by cases h
  | completePairing token device =>
      subst hs'
      simp only [pairingStep, PairingManager.completePairing] at hoverlap ⊢
      split
      · exact h
      · rename_i request hfind
        rw [hfind] at hoverlap
        exact h.find (Table.find_eq_some_iff.mp hfind).1 device hoverlap
  | removeDevice deviceId =>
      subst hs'
      simp only [pairingStep, PairingManager.removeDevice]
      split
      · exact h
      · exact h.erase deviceId
  | proceed place token =>
      simp only [pairingStep] at hs'
      split at hs'
      · subst hs'
        exact h
      · rename_i call hcall
        refine PairingManager.goOn_bounded (s := { s with calls := s.calls.eraseIdx place })
          (h.of_perm (perm_cons_eraseIdx hcall)) ?_ hs'
        rintro rfl
        exact hfresh hcall

end Bounds

/-- **Limits and tokens.** In every run in which at most `p` calls are under way at a time and
random tokens are new, there are fewer than `5 + p` requests, at most `max_devices + p - 1` devices
or as many as were loaded, and at most `p` devices that were paired with one token. With one call at
a time each limit holds as it is configured, and a token pairs one device. -/
theorem pairing_bounds {config : PairingConfig} {p : Nat} {now : Int}
    {loaded : Table PairedDevice.deviceId} {ops : List PairingOp}
    (hapart : Guarded (pairingStep config) (PairingApart config p) (.load now loaded) ops) :
    ∀ s ∈ passed (pairingStep config) (.load now loaded) ops,
      s.pending.size ≤ maxPendingRequests + p - 1 ∧
        s.devices.size ≤ max loaded.size (config.maxDevices + p - 1) ∧
        ∀ token, (s.paired.countP fun entry => entry.request.token == token) ≤ p := by
  intro s hs
  have hinit : PairingBounded config p loaded.size .empty loaded [] [] [] := by
    refine ⟨Nat.zero_le p, .init, .init, .nil, ?_, ?_, ?_, ?_, ?_, fun _ => Nat.zero_le p⟩
    all_goals simp
  have hstep : ∀ s op,
      PairingBounded config p loaded.size s.pending s.devices s.calls s.issued s.paired →
      PairingApart config p s op → ∀ s', s' = pairingStep config s op →
      PairingBounded config p loaded.size s'.pending s'.devices s'.calls s'.issued s'.paired :=
    fun _ _ h hapart _ hs' => pairingStep_bounded h hapart hs'
  have h : PairingBounded config p loaded.size s.pending s.devices s.calls s.issued s.paired :=
    passed_invariant (fun s op h hapart => hstep s op h hapart _ rfl) hinit hapart s hs
  refine ⟨h.requestLimit.size_le.trans (by simp), h.deviceLimit.size_le, fun token => ?_⟩
  by_cases hissued : ∃ request ∈ s.issued, request.token = token
  · -- all devices of the token were paired with the one request that it is from
    obtain ⟨request, hmem, rfl⟩ := hissued
    refine Nat.le_trans (List.countP_mono_left fun entry hentry htoken => ?_)
      (Nat.le_trans (Nat.le_add_right _ _) (h.uses request))
    have hsame := List.inj_on_of_nodup_map h.distinct (h.used entry hentry) hmem
      (beq_iff_eq.mp htoken)
    exact beq_iff_eq.mpr hsame
  · have hnone : (s.paired.countP fun entry => entry.request.token == token) = 0 := by
      rw [List.countP_eq_zero]
      exact fun entry hentry htoken =>
        hissued ⟨entry.request, h.used entry hentry, beq_iff_eq.mp htoken⟩
    rw [hnone]
    exact Nat.zero_le p

/-- Two devices that complete one pairing at the same time. -/
def sharedTokenRun : List PairingOp :=
  [.createPairingRequest, .proceed 0 "a1",
    .completePairing "a1" ⟨"p", "phone", "ios", 0, 0, none⟩,
    .completePairing "a1" ⟨"t", "tablet", "android", 0, 0, none⟩] ++
    List.replicate 7 (.proceed 1 "") ++ [.proceed 0 ""]

/-- The state after both. -/
def sharedToken : PairingManager :=
  runOps (pairingStep ⟨true, 10, 300⟩) (.load 0 .empty) sharedTokenRun

/-- Both are paired with the token, which the bound for two calls at a time allows. -/
theorem pairing_bounds_shared :
    (sharedToken.paired.countP fun entry => entry.request.token == "a1") = 2 ∧
      sharedToken.pending.size ≤ 6 ∧ sharedToken.devices.size ≤ 11 ∧
      (sharedToken.paired.countP fun entry => entry.request.token == "a1") ≤ 2 := by
  have hapart : Guarded (pairingStep ⟨true, 10, 300⟩) (PairingApart ⟨true, 10, 300⟩ 2)
      (.load 0 .empty) sharedTokenRun := by
    simp only [sharedTokenRun, List.replicate, List.cons_append, List.nil_append, Guarded,
      PairingApart, and_true]
    decide
  have hbounds := pairing_bounds hapart _ (mem_passed.mpr ⟨sharedTokenRun, List.prefix_rfl, rfl⟩)
  exact ⟨by decide, hbounds.1, hbounds.2.1, hbounds.2.2 "a1"⟩

end ArmaraOS.Kernel
