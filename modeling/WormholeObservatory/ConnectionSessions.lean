import WormholeObservatory.Connection

/-! What goes over the wire in every run of a connection: logins only when there is no session,
everything else under the session of the last login, and a call twice only if it was refused. -/
namespace WormholeObservatory
namespace Connections

open JsonValues
open Effects (Ends ends_iff leaves result)
open Transition (Run)

section Sessions

variable [ValueTexts]

/-- With a password, everything but a login carries a session. -/
def isLogin (e : Message × Answer) : Bool := e.1.sid.isNone

/-- The session a login is answered with. -/
def sessionOf (e : Message × Answer) : Option Session :=
  match e.2.outcome with
  | .inl _ => none
  | .inr r =>
    match readLogin r with
    | .granted session => some session
    | _ => none

/-- The tokens a login gives. -/
def granted (e : Message × Answer) : Option (String × Option String) :=
  (sessionOf e).bind fun session => session.sid.map (·,session.csrf)

/-- A login after which `_authenticate` returns. -/
def Completes (e : Message × Answer) : Prop :=
  ∃ session sid validity, sessionOf e = some session ∧ session.sid = some sid ∧
    session.validity = .ok validity

/-- What the last login gave. -/
def lastGrant (log : Log) : Option (String × Option String) := (log.filter isLogin).getLast?.bind granted

def Refused (e : Message × Answer) : Prop := ∃ r, e.2.outcome = .inr r ∧ r.statusCode = 401

def Logout (baseUrl : String) (e : Message × Answer) : Prop :=
  e.1.method = .delete ∧ e.1.url = baseUrl++"auth"

/-- After each login that completed, the session was refused or given back. -/
def Idle (baseUrl : String) (log : Log) : Prop :=
  ∀ pre e post, log = pre++e::post → isLogin e = true → Completes e →
    ∃ x ∈ post, Refused x ∨ Logout baseUrl x

/-- A login at a time without a session, or a message under the session of the last login. -/
def Proper (baseUrl password : String) (pre : Log) (m : Message) : Prop :=
  (m = (Link.fresh baseUrl password).loginMessage ∧ Idle baseUrl pre) ∨
    ∃ sid, m.sid = some sid ∧ lastGrant pre = some (sid,m.csrf)

/-- All that was sent was proper when it was sent. -/
def ProperLog (baseUrl password : String) (log : Log) : Prop :=
  ∀ pre e post, log = pre++e::post → Proper baseUrl password pre e.1

omit [ValueTexts] in
/-- A place in a log that grew by one is an old one or the last. -/
theorem split_snoc {log pre post : Log} {e x : Message × Answer} (h : log++[e] = pre++x::post) :
    (pre = log ∧ x = e ∧ post = []) ∨ ∃ post', post = post'++[e] ∧ log = pre++x::post' := by
  rcases List.eq_nil_or_concat post with rfl | ⟨post',last,rfl⟩
  · have h' : log++[e] = pre++[x] := h
    obtain ⟨hlog,hlast⟩ := List.append_inj' h' rfl
    exact .inl ⟨hlog.symm,(List.cons.inj hlast).1.symm,rfl⟩
  · have h' : log++[e] = (pre++x::post')++[last] := by simpa using h
    obtain ⟨hlog,hlast⟩ := List.append_inj' h' rfl
    obtain rfl := (List.cons.inj hlast).1
    exact .inr ⟨post',List.concat_eq_append ..,hlog⟩

variable {baseUrl password : String} {log : Log} {e : Message × Answer}

theorem ProperLog.snoc (h : ProperLog baseUrl password log) (he : Proper baseUrl password log e.1) :
    ProperLog baseUrl password (log++[e]) := by
  intro pre x post hsplit
  rcases split_snoc hsplit with ⟨rfl,rfl,-⟩ | ⟨post',-,hlog⟩
  · exact he
  · exact h pre x post' hlog

theorem Idle.snoc (h : Idle baseUrl log) (he : isLogin e = true → ¬Completes e) :
    Idle baseUrl (log++[e]) := by
  intro pre x post hsplit hlogin hcompletes
  rcases split_snoc hsplit with ⟨rfl,rfl,-⟩ | ⟨post',rfl,hlog⟩
  · exact absurd hcompletes (he hlogin)
  · obtain ⟨y,hy,hend⟩ := h pre x post' hlog hlogin hcompletes
    exact ⟨y,List.mem_append_left _ hy,hend⟩

/-- A refusal or a logout ends every session before it. -/
theorem idle_snoc (hlogin : isLogin e = false) (hend : Refused e ∨ Logout baseUrl e) :
    Idle baseUrl (log++[e]) := by
  intro pre x post hsplit hx _
  rcases split_snoc hsplit with ⟨rfl,rfl,-⟩ | ⟨post',rfl,-⟩
  · rw [hlogin] at hx
    cases hx
  · exact ⟨e,by simp,hend⟩

omit [ValueTexts] in
theorem idle_nil [ValueTexts] : Idle baseUrl [] := by
  intro pre x post hsplit
  simp at hsplit

theorem lastGrant_login (h : isLogin e = true) : lastGrant (log++[e]) = granted e := by
  simp [lastGrant,List.filter_append,h]

theorem lastGrant_message (h : isLogin e = false) : lastGrant (log++[e]) = lastGrant log := by
  simp [lastGrant,List.filter_append,h]

/-- What holds of a connection with a password between any two calls. -/
structure Disciplined (baseUrl password : String) (s : Link) : Prop where
  base : s.baseUrl = baseUrl
  secret : s.password = password
  log : ProperLog baseUrl password s.log
  idle : s.sessionId = none → Idle baseUrl s.log
  held : ∀ sid, s.sessionId = some sid → lastGrant s.log = some (sid,s.csrfToken)
  closed : s.closed = true → s.sessionId = none

omit [ValueTexts] in
/-- Every message is logged with its answer, and the result is the answer. -/
theorem transmit_ends (peer : Peer) (m : Message) (s : Link) :
    Ends (transmit peer m) s fun r s' => ∃ answer health,
      s' = { s with log := s.log++[(m,answer)], health } ∧
      (∀ response, r = .ok response → answer.outcome = .inr response) ∧
      (∀ fault, r = .error fault → ∃ failure, answer.outcome = .inl failure) := by
  rw [Ends,transmit]
  generalize hanswer : peer.answer s.log m = answer
  cases houtcome : answer.outcome with
  | inl failure => exact ⟨answer,_,rfl,by simp,fun _ _ => ⟨failure,houtcome⟩⟩
  | inr response =>
    refine ⟨answer,_,rfl,fun response' h => ?_,by simp⟩
    cases h
    exact houtcome

namespace Disciplined

variable {s : Link} {peer : Peer}

/-- A message under the session that is held. -/
theorem send (h : Disciplined baseUrl password s) {sid : String} (hheld : s.sessionId = some sid)
    {m : Message} (hsid : m.sid = some sid) (hcsrf : m.csrf = s.csrfToken) (answer : Answer)
    (health : ConnectionHealth) :
    Disciplined baseUrl password { s with log := s.log++[(m,answer)], health } := by
  have hlogin : isLogin (m,answer) = false := by simp [isLogin,hsid]
  refine ⟨h.base,h.secret,h.log.snoc (.inr ⟨sid,hsid,?_⟩),fun hnone => ?_,fun sid' hsid' => ?_,h.closed⟩
  · rw [hcsrf]
    exact h.held sid hheld
  · exact absurd (hheld.symm.trans hnone) (by simp)
  · rw [lastGrant_message hlogin]
    exact h.held sid' hsid'

/-- A session can be dropped when it is used up. -/
theorem drop (h : Disciplined baseUrl password s) (hidle : Idle baseUrl s.log)
    (validity : Option ℤ) : Disciplined baseUrl password { s.forget with validity } := by
  refine ⟨h.base,h.secret,h.log,fun _ => hidle,fun sid hsid => ?_,fun _ => rfl⟩
  cases hsid

theorem loginMessage (h : Disciplined baseUrl password s) :
    s.loginMessage = (Link.fresh baseUrl password).loginMessage := by
  simp [Link.loginMessage,Link.url,Link.fresh,h.base,h.secret]

/-- What is left of a login that brought no session. -/
theorem loginFailed (h : Disciplined baseUrl password s) (hnone : s.sessionId = none)
    {answer : Answer} (hgrant : ¬Completes (s.loginMessage,answer)) (csrf : Option String)
    (validity : Option ℤ) (health : ConnectionHealth) :
    Disciplined baseUrl password { s with
      csrfToken := csrf, validity, log := s.log++[(s.loginMessage,answer)], health } := by
  refine ⟨h.base,h.secret,h.log.snoc (.inl ⟨h.loginMessage,h.idle hnone⟩),fun _ => ?_,
    fun sid hsid => ?_,h.closed⟩
  · exact (h.idle hnone).snoc fun _ => hgrant
  · exact absurd (hnone.symm.trans hsid) (by simp)

/-- What is left of a login that brought one. -/
theorem loginGranted (h : Disciplined baseUrl password s) (hnone : s.sessionId = none)
    (hopen : s.closed = false) {answer : Answer} {session : Session} {sid : String}
    (hsession : sessionOf (s.loginMessage,answer) = some session) (hsid : session.sid = some sid)
    (validity : Option ℤ) (health : ConnectionHealth) :
    Disciplined baseUrl password { s with
      sessionId := session.sid, csrfToken := session.csrf, validity
      log := s.log++[(s.loginMessage,answer)], health } := by
  refine ⟨h.base,h.secret,h.log.snoc (.inl ⟨h.loginMessage,h.idle hnone⟩),fun hnone' => ?_,
    fun sid' hsid' => ?_,fun hclosed => ?_⟩
  · exact absurd (hsid.symm.trans hnone') (by simp)
  · change lastGrant (s.log++[(s.loginMessage,answer)]) = _
    rw [lastGrant_login rfl,granted,hsession,Option.bind_some,hsid]
    obtain rfl := Option.some.inj (hsid.symm.trans hsid')
    rfl
  · exact absurd (hopen.symm.trans hclosed) (by simp)

/-- What the answer to a login makes of the connection. -/
theorem openSession (h : Disciplined baseUrl password s) (hnone : s.sessionId = none)
    (hopen : s.closed = false) {answer : Answer} {health : ConnectionHealth} {response : Response}
    (hanswer : answer.outcome = .inr response) :
    Ends (openSession peer response) { s with log := s.log++[(s.loginMessage,answer)], health }
      fun r s' => Disciplined baseUrl password s' ∧ s'.closed = false ∧
        (r = .ok () → s'.sessionId.isSome = true) ∧ (r ≠ .ok () → Idle baseUrl s'.log) := by
  have hidle : ¬Completes (s.loginMessage,answer) →
      Idle baseUrl (s.log++[(s.loginMessage,answer)]) := fun hfailed =>
    (h.idle hnone).snoc fun _ => hfailed
  have hsession : sessionOf (s.loginMessage,answer) = match readLogin response with
      | .granted session => some session
      | _ => none := by
    rw [sessionOf,hanswer]
  rw [Ends,Connections.openSession]
  cases hlogin : readLogin response with
  | failed fault =>
    rw [hlogin] at hsession
    have hfailed : ¬Completes (s.loginMessage,answer) := by simp [Completes,hsession]
    exact ⟨h.loginFailed hnone hfailed _ _ _,hopen,by simp,fun _ => hidle hfailed⟩
  | refused message =>
    rw [hlogin] at hsession
    have hfailed : ¬Completes (s.loginMessage,answer) := by simp [Completes,hsession]
    exact ⟨h.loginFailed hnone hfailed _ _ _,hopen,by simp,fun _ => hidle hfailed⟩
  | granted session =>
    rw [hlogin] at hsession
    dsimp only
    cases hsid : session.sid with
    | none =>
      have hfailed : ¬Completes (s.loginMessage,answer) := by
        simp [Completes,hsession,hsid]
      have hleft := fun validity => h.loginFailed hnone hfailed session.csrf validity
      rw [hnone] at hleft
      cases hvalidity : session.validity with
      | error e => exact ⟨hleft _ _,hopen,by simp,fun _ => hidle hfailed⟩
      | ok validity => exact ⟨hleft _ _,hopen,by simp,fun _ => hidle hfailed⟩
    | some sid =>
      have hleft := h.loginGranted hnone hopen hsession hsid
      rw [hsid] at hleft
      cases hvalidity : session.validity with
      | error e =>
        have hfailed : ¬Completes (s.loginMessage,answer) := by
          simp [Completes,hsession,hvalidity]
        exact ⟨hleft _ _,hopen,by simp,fun _ => hidle hfailed⟩
      | ok validity => exact ⟨hleft _ _,hopen,fun _ => rfl,fun hraised => absurd rfl hraised⟩

/-- A login leaves the connection in order. If it returns, there is a session; if it raises,
there is none to give back. -/
theorem authenticate (h : Disciplined baseUrl password s) (hpassword : password ≠ "")
    (hopen : s.closed = false) :
    Ends (authenticate peer) s fun r s' => Disciplined baseUrl password s' ∧ s'.closed = false ∧
      (r = .ok () → s'.sessionId.isSome = true) ∧ (r ≠ .ok () → Idle baseUrl s'.log) := by
  have hsecret : ¬s.password = "" := by rwa [h.secret]
  by_cases hheld : s.sessionId.isSome = true
  · refine Ends.ok (a := ()) ?_ ⟨h,hopen,fun _ => hheld,fun hraised => absurd rfl hraised⟩
    simp only [Connections.authenticate,hheld,or_true,if_true]
  have hnone : s.sessionId = none := by simpa using hheld
  have hrun : Connections.authenticate peer s =
      (transmit peer s.loginMessage >>= Connections.openSession peer) s := by
    simp [Connections.authenticate,hsecret,hnone,hopen]
  refine ((transmit_ends peer s.loginMessage s).bind ?_ ?_).of_eq hrun
  · rintro fault s' ⟨answer,health,rfl,-,hfailed⟩
    obtain ⟨failure,hanswer⟩ := hfailed fault rfl
    have hsession : ¬Completes (s.loginMessage,answer) := by simp [Completes,sessionOf,hanswer]
    exact ⟨h.loginFailed hnone hsession _ _ _,hopen,by simp,
      fun _ => (h.idle hnone).snoc fun _ => hsession⟩
  · rintro response s' ⟨answer,health,rfl,hanswer,-⟩
    exact h.openSession hnone hopen (hanswer response rfl)

/-- What one attempt at a call leaves. If it returns, the message was sent last, under a session;
an attempt to log out leaves no session to give back. -/
structure Attempted (baseUrl password : String) (call : Call) (s : Link) (r : Except Fault Response)
    (s' : Link) : Prop where
  disciplined : Disciplined baseUrl password s'
  closed : s'.closed = s.closed
  sent : ∀ response, r = .ok response →
    ∃ log e, s'.log = log++[e] ∧ isLogin e = false ∧ e.2.outcome = .inr response
  idle : call = logout → s.closed = false → Idle baseUrl s'.log

omit [ValueTexts] in
theorem logout_url : String.ofList ("auth".toList.dropWhile (· == '/')) = "auth" := by decide

theorem sendRaw (h : Disciplined baseUrl password s) (hpassword : password ≠ "") (call : Call) :
    Ends (sendRaw peer call) s (Attempted baseUrl password call s) := by
  by_cases hclosed : s.closed = true
  · refine Ends.error (e := closedFault) ?_ ⟨h,rfl,by simp,by simp [hclosed]⟩
    simp only [Connections.sendRaw,hclosed,if_true]
  have hopen : s.closed = false := by simpa using hclosed
  have hrun : Connections.sendRaw peer call s = (Connections.authenticate peer >>=
      fun _ => fun s => transmit peer (call.message s) s) s := by
    simp [Connections.sendRaw,hopen]
  refine ((h.authenticate hpassword hopen).bind ?_ ?_).of_eq hrun
  · rintro fault s' ⟨hs',hopen',-,hidle⟩
    exact ⟨hs',hopen'.trans hopen.symm,by simp,fun _ _ => hidle (by simp)⟩
  · rintro ⟨⟩ s' ⟨hs',hopen',hsession,-⟩
    obtain ⟨sid,hsid⟩ := Option.isSome_iff_exists.mp (hsession rfl)
    refine ((transmit_ends peer (call.message s') s').mono ?_).of_eq rfl
    rintro r s'' ⟨answer,health,rfl,hanswer,-⟩
    have hleft := hs'.send hsid (m := call.message s') hsid rfl answer health
    have hlogin : isLogin (call.message s',answer) = false := by
      simp [isLogin,Call.message,hsid]
    refine ⟨hleft,hopen'.trans hopen.symm,fun response hr => ?_,fun hlogout _ => ?_⟩
    · exact ⟨s'.log,_,rfl,hlogin,hanswer response hr⟩
    · refine idle_snoc hlogin (.inr ?_)
      subst hlogout
      refine ⟨rfl,?_⟩
      change s'.baseUrl++String.ofList ("auth".toList.dropWhile (· == '/')) = _
      rw [logout_url,hs'.base]

/-- The second attempt, if there is one. -/
theorem retryRefused (h : Disciplined baseUrl password s) (hpassword : password ≠ "") (call : Call)
    {response : Response} {log : Log} {e : Message × Answer} (hlog : s.log = log++[e])
    (hlogin : isLogin e = false) (hanswer : e.2.outcome = .inr response)
    (hidle : call = logout → s.closed = false → Idle baseUrl s.log) :
    Ends (retryRefused peer call response) s fun _ s' => Disciplined baseUrl password s' ∧
      s'.closed = s.closed ∧ (call = logout → s.closed = false → Idle baseUrl s'.log) := by
  by_cases hrefused : response.statusCode = 401 ∧ s.password ≠ ""
  · have hforget : Disciplined baseUrl password s.forget := by
      refine h.drop ?_ s.validity
      rw [hlog]
      exact idle_snoc hlogin (.inl ⟨response,hanswer,hrefused.1⟩)
    have hretry : Ends (Connections.sendRaw peer call) s.forget fun _ s' =>
        Disciplined baseUrl password s' ∧ s'.closed = s.closed ∧
          (call = logout → s.closed = false → Idle baseUrl s'.log) :=
      (hforget.sendRaw hpassword call).mono fun r s' hs' => ⟨hs'.disciplined,hs'.closed,hs'.idle⟩
    refine hretry.of_eq ?_
    simp only [Connections.retryRefused,if_pos hrefused]
  · refine Ends.ok (a := response) ?_ ⟨h,rfl,hidle⟩
    simp only [Connections.retryRefused,if_neg hrefused]

theorem conclude_ends (call : Call) (response : Response) (s : Link) :
    Ends (conclude call response) s fun _ s' => s' = s := by
  by_cases hok : response.ok = true
  · refine Ends.ok (a := response.payload call.binary) ?_ rfl
    simp only [conclude,hok,if_true]
  · refine Ends.error (e := response.fault) ?_ rfl
    simp only [conclude,hok]
    rfl

theorem request (h : Disciplined baseUrl password s) (hpassword : password ≠ "") (call : Call) :
    Ends (request peer call) s fun _ s' => Disciplined baseUrl password s' ∧
      s'.closed = s.closed ∧ (call = logout → s.closed = false → Idle baseUrl s'.log) := by
  refine (h.sendRaw hpassword call).bind (fun fault s' hs' => ⟨hs'.disciplined,hs'.closed,hs'.idle⟩) ?_
  intro response s' hs'
  obtain ⟨log,e,hlog,hlogin,hanswer⟩ := hs'.sent response rfl
  have hidle : call = logout → s'.closed = false → Idle baseUrl s'.log := fun hlogout hopen =>
    hs'.idle hlogout (hs'.closed.symm.trans hopen)
  have hretry : Ends (Connections.retryRefused peer call response) s' _ :=
    hs'.disciplined.retryRefused hpassword call hlog hlogin hanswer hidle
  rw [hs'.closed] at hretry
  refine hretry.bind (fun fault s'' hs'' => hs'') ?_
  intro response' s'' hs''
  refine (conclude_ends call response' s'').mono ?_
  rintro r t rfl
  exact hs''

theorem closeSession (h : Disciplined baseUrl password s) (hpassword : password ≠ "") :
    Ends (closeSession peer) s fun _ s' => Disciplined baseUrl password s' ∧ s'.closed = s.closed ∧
      s'.sessionId = none := by
  by_cases hheld : s.sessionId.isSome = true
  · have hopen : s.closed = false := by
      by_contra hclosed
      have hnone := h.closed (by simpa using hclosed)
      simp [hnone] at hheld
    have hrequest : Ends (Connections.request peer logout) s _ := h.request hpassword logout
    rw [Ends] at hrequest ⊢
    simp only [Connections.closeSession,hheld,if_true]
    cases hrun : Connections.request peer logout s with
    | ok payload s' =>
      rw [hrun] at hrequest
      obtain ⟨hs',hclosed,hidle⟩ := hrequest
      exact ⟨hs'.drop (hidle rfl hopen) none,hclosed,rfl⟩
    | error fault s' =>
      rw [hrun] at hrequest
      obtain ⟨hs',hclosed,hidle⟩ := hrequest
      exact ⟨hs'.drop (hidle rfl hopen) none,hclosed,rfl⟩
  · refine Ends.ok (a := ()) ?_ ⟨h,rfl,by simpa using hheld⟩
    rw [Connections.closeSession,if_neg hheld]

theorem close (h : Disciplined baseUrl password s) (hpassword : password ≠ "") :
    Disciplined baseUrl password (s.close peer) := by
  by_cases hclosed : s.closed = true
  · rwa [Link.close,if_pos hclosed]
  · have hclose : Ends (Connections.closeSession peer) s _ := h.closeSession hpassword
    obtain ⟨hs',-,hnone⟩ := ends_iff.mp hclose
    rw [Link.close,if_neg hclosed]
    exact ⟨hs'.base,hs'.secret,hs'.log,hs'.idle,hs'.held,fun _ => hnone⟩

theorem exec (h : Disciplined baseUrl password s) (hpassword : password ≠ "") (op : LinkOp) :
    Disciplined baseUrl password (op.exec peer s) := by
  cases op with
  | request call => exact (ends_iff.mp (h.request hpassword call)).1
  | closeSession => exact (ends_iff.mp (h.closeSession hpassword)).1
  | close => exact h.close hpassword

theorem fresh (baseUrl password : String) :
    Disciplined baseUrl password (Link.fresh baseUrl password) := by
  refine ⟨rfl,rfl,fun pre e post hsplit => ?_,fun _ => idle_nil,fun sid hsid => ?_,fun _ => rfl⟩
  · simp [Link.fresh] at hsplit
  · cases hsid

end Disciplined

/-! After it is closed. -/

theorem sendRaw_closed {s : Link} (h : s.closed = true) (peer : Peer) (call : Call) :
    sendRaw peer call s = .error closedFault s := by
  simp only [sendRaw,h,if_true]

theorem exec_closed {s : Link} (h : s.closed = true) (hnone : s.sessionId = none) (peer : Peer)
    (op : LinkOp) : op.exec peer s = s := by
  cases op with
  | request call =>
    have hrequest : request peer call s = .error closedFault s := by
      change EStateM.bind (sendRaw peer call) _ s = _
      simp only [EStateM.bind,sendRaw_closed h]
    simp only [LinkOp.exec,leaves,hrequest]
  | closeSession => simp [LinkOp.exec,leaves,closeSession,hnone]
  | close => simp only [LinkOp.exec,Link.close,h,if_true]

/-- What one attempt adds to the log: a login if there was no session, and the call. -/
structure Sends (s : Link) (call : Call) (logins own : Log) : Prop where
  login_once : logins.length ≤ 1
  login : ∀ e ∈ logins, e.1 = s.loginMessage
  needed : logins ≠ [] → s.password ≠ "" ∧ s.sessionId = none
  once : own.length ≤ 1
  message : ∀ e ∈ own, ∃ sid csrf, e.1 = { call.message s with sid, csrf }

/-- An attempt that returns sent the call and returns its answer. -/
structure Attempt (call : Call) (s : Link) (r : Except Fault Response) (s' : Link) (logins own : Log) :
    Prop where
  sends : Sends s call logins own
  log : s'.log = s.log++logins++own
  kept : s'.password = s.password ∧ s'.baseUrl = s.baseUrl ∧ s'.closed = s.closed
  answered : ∀ response, r = .ok response → ∃ e, own = [e] ∧ e.2.outcome = .inr response

variable {peer : Peer}

omit [ValueTexts] in
theorem Sends.none (s : Link) (call : Call) : Sends s call [] [] :=
  ⟨by simp,by simp,by simp,by simp,by simp⟩

/-- A login adds itself and keeps the rest. -/
theorem authenticate_adds (peer : Peer) (s : Link) : Ends (authenticate peer) s fun _ s' =>
    ∃ logins, s'.log = s.log++logins ∧ (∀ call, Sends s call logins []) ∧
      s'.password = s.password ∧ s'.baseUrl = s.baseUrl ∧ s'.closed = s.closed := by
  by_cases hskip : s.password = "" ∨ s.sessionId.isSome = true
  · refine Ends.ok (a := ()) ?_ ⟨[],by simp,Sends.none s,rfl,rfl,rfl⟩
    rw [authenticate,if_pos hskip]
  by_cases hclosed : s.closed = true
  · refine Ends.error (e := closedFault) ?_ ⟨[],by simp,Sends.none s,rfl,rfl,rfl⟩
    rw [authenticate,if_neg hskip,if_pos hclosed]
  obtain ⟨hpassword,hsession⟩ := not_or.mp hskip
  have hsends : ∀ answer call, Sends s call [(s.loginMessage,answer)] [] := fun answer call =>
    ⟨by simp,by simp,fun _ => ⟨hpassword,by simpa using hsession⟩,by simp,by simp⟩
  have hrun : authenticate peer s = (transmit peer s.loginMessage >>= openSession peer) s := by
    rw [authenticate,if_neg hskip,if_neg hclosed]
  refine ((transmit_ends peer s.loginMessage s).bind ?_ ?_).of_eq hrun
  · rintro fault s' ⟨answer,health,rfl,-,-⟩
    exact ⟨_,rfl,hsends answer,rfl,rfl,rfl⟩
  · rintro response s' ⟨answer,health,rfl,-,-⟩
    rw [Ends,openSession]
    cases readLogin response with
    | failed fault => exact ⟨_,rfl,hsends answer,rfl,rfl,rfl⟩
    | refused message => exact ⟨_,rfl,hsends answer,rfl,rfl,rfl⟩
    | granted session =>
      obtain ⟨sid,csrf,validity⟩ := session
      cases validity with
      | error e => exact ⟨_,rfl,hsends answer,rfl,rfl,rfl⟩
      | ok validity =>
        cases sid with
        | none => exact ⟨_,rfl,hsends answer,rfl,rfl,rfl⟩
        | some sid => exact ⟨_,rfl,hsends answer,rfl,rfl,rfl⟩

theorem sendRaw_attempt (peer : Peer) (call : Call) (s : Link) :
    Ends (sendRaw peer call) s fun r s' => ∃ logins own, Attempt call s r s' logins own := by
  by_cases hclosed : s.closed = true
  · refine Ends.error (sendRaw_closed hclosed peer call) ?_
    exact ⟨[],[],Sends.none s call,by simp,⟨rfl,rfl,rfl⟩,by simp⟩
  have hrun : sendRaw peer call s = (authenticate peer >>=
      fun _ => fun s => transmit peer (call.message s) s) s := by
    rw [sendRaw,if_neg hclosed]
  refine ((authenticate_adds peer s).bind ?_ ?_).of_eq hrun
  · rintro fault s' ⟨logins,hlog,hsends,hkept⟩
    exact ⟨logins,[],hsends call,by simp [hlog],hkept,by simp⟩
  · rintro ⟨⟩ s' ⟨logins,hlog,hsends,hpassword,hbase,hclosed'⟩
    refine ((transmit_ends peer (call.message s') s').mono ?_).of_eq rfl
    rintro r s'' ⟨answer,health,rfl,hanswer,-⟩
    refine ⟨logins,[(call.message s',answer)],?_,by simp [hlog],⟨hpassword,hbase,hclosed'⟩,?_⟩
    · refine ⟨(hsends call).login_once,(hsends call).login,(hsends call).needed,by simp,?_⟩
      intro e he
      obtain rfl := List.mem_singleton.mp he
      refine ⟨s'.sessionId,s'.csrfToken,?_⟩
      simp [Call.message,Link.url,hbase]
    · exact fun response hr => ⟨_,rfl,hanswer response hr⟩

/-- What a call adds to the log: an attempt, and a second one only if the first was refused and
there is a password. What it returns is the answer to the last attempt, a success. -/
structure Delivered (call : Call) (s : Link) (r : Except Fault Payload) (s' : Link)
    (logins own logins' own' : Log) : Prop where
  log : s'.log = s.log++logins++own++logins'++own'
  closed : s'.closed = s.closed
  first : Sends s call logins own
  second : Sends s.forget call logins' own'
  again : logins'++own' ≠ [] → s.password ≠ "" ∧ ∃ e, own = [e] ∧ Refused e
  answered : ∀ payload, r = .ok payload → ∃ e response, (own++own').getLast? = some e ∧
    e.2.outcome = .inr response ∧ response.ok = true ∧ payload = response.payload call.binary

/-- The last response decides what is returned. -/
theorem Delivered.conclude {call : Call} {s s' : Link} {fault : Fault} {response : Response}
    {logins own logins' own' : Log} {e : Message × Answer}
    (h : Delivered call s (.error fault) s' logins own logins' own')
    (hlast : (own++own').getLast? = some e) (hanswer : e.2.outcome = .inr response) :
    Ends (conclude call response) s' fun r t => Delivered call s r t logins own logins' own' := by
  by_cases hok : response.ok = true
  · refine Ends.ok (a := response.payload call.binary) (by simp only [Connections.conclude,hok,if_true]) ?_
    refine ⟨h.log,h.closed,h.first,h.second,h.again,fun payload hr => ?_⟩
    cases hr
    exact ⟨e,response,hlast,hanswer,hok,rfl⟩
  · refine Ends.error (e := response.fault) ?_ ⟨h.log,h.closed,h.first,h.second,h.again,by simp⟩
    simp only [Connections.conclude,hok]
    rfl

omit [ValueTexts] in
/-- An attempt after the first was refused. -/
theorem Attempt.again {call : Call} {s s' s'' : Link} {r r' : Except Fault Response}
    {logins logins' own' : Log} {e : Message × Answer} (h : Attempt call s r s' logins [e])
    (hagain : s.password ≠ "" ∧ Refused e) (h' : Attempt call s'.forget r' s'' logins' own')
    (fault : Fault) : Delivered call s (.error fault) s'' logins [e] logins' own' := by
  obtain ⟨hpassword,hbase,hclosed⟩ := h.kept
  refine ⟨?_,h'.kept.2.2.trans hclosed,h.sends,⟨h'.sends.login_once,fun x hx => ?_,fun _ => ⟨hagain.1,rfl⟩,h'.sends.once,
    fun x hx => ?_⟩,fun _ => ⟨hagain.1,e,rfl,hagain.2⟩,by simp⟩
  · rw [h'.log]
    change s'.log++logins'++own' = _
    rw [h.log]
  · refine (h'.sends.login x hx).trans ?_
    simp [Link.loginMessage,Link.forget,Link.url,hpassword,hbase]
  · obtain ⟨sid,csrf,hmessage⟩ := h'.sends.message x hx
    refine ⟨sid,csrf,hmessage.trans ?_⟩
    simp [Call.message,Link.forget,Link.url,hbase]

/-- A call is sent at most twice, each time after at most one login, and the second time only if
the first was refused and there is a password; what it returns is the answer to the last one. -/
theorem call_sent_at_most_twice (peer : Peer) (call : Call) (s : Link) :
    ∃ logins own logins' own', Delivered call s (result (request peer call) s)
      (leaves (request peer call) s) logins own logins' own' := by
  suffices hends : Ends (request peer call) s fun r s' => ∃ logins own logins' own',
      Delivered call s r s' logins own logins' own' from ends_iff.mp hends
  refine (sendRaw_attempt peer call s).bind ?_ ?_
  · rintro fault s' ⟨logins,own,hattempt⟩
    exact ⟨logins,own,[],[],by simp [hattempt.log],hattempt.kept.2.2,hattempt.sends,Sends.none _ _,by simp,by simp⟩
  rintro response s' ⟨logins,own,hattempt⟩
  obtain ⟨e,rfl,hanswer⟩ := hattempt.answered response rfl
  by_cases hrefused : response.statusCode = 401 ∧ s'.password ≠ ""
  · have hagain : s.password ≠ "" ∧ Refused e :=
      ⟨hattempt.kept.1 ▸ hrefused.2,response,hanswer,hrefused.1⟩
    have hretry := (sendRaw_attempt peer call s'.forget).of_eq (x := retryRefused peer call response)
      (s := s') (by simp only [retryRefused,if_pos hrefused])
    refine hretry.bind ?_ ?_
    · rintro fault s'' ⟨logins',own',hattempt'⟩
      exact ⟨logins,[e],logins',own',hattempt.again hagain hattempt' fault⟩
    · rintro response' s'' ⟨logins',own',hattempt'⟩
      obtain ⟨e',rfl,hanswer'⟩ := hattempt'.answered response' rfl
      have hdelivered := hattempt.again hagain hattempt' response'.fault
      refine (hdelivered.conclude (e := e') (by simp) hanswer').mono ?_
      intro r t ht
      exact ⟨_,_,_,_,ht⟩
  · have hretry : Ends (retryRefused peer call response) s' fun r t => r = .ok response ∧ t = s' :=
      Ends.ok (a := response) (by simp only [retryRefused,if_neg hrefused]) ⟨rfl,rfl⟩
    refine hretry.bind (fun fault s'' h => by cases h.1) ?_
    rintro response' s'' ⟨hresponse,rfl⟩
    cases hresponse
    have hdelivered : Delivered call s (.error response.fault) s'' logins [e] [] [] :=
      ⟨by simp [hattempt.log],hattempt.kept.2.2,hattempt.sends,Sends.none _ _,by simp,by simp⟩
    refine (hdelivered.conclude (e := e) (by simp) hanswer).mono ?_
    intro r t ht
    exact ⟨_,_,_,_,ht⟩

end Sessions

/-! A session that runs out once. -/

def grantedResponse (sid : String) : Response :=
  ⟨200,"OK","{}",some (.dict [("session",.dict [("valid",.bool true),("sid",.str sid)])])⟩

/-- It grants every login and does not know the session of the first message. -/
def forgetfulPeer : Peer where
  answer log m :=
    ⟨0,0,.inr (if m.sid = none then grantedResponse "sid"
      else if log.length = 1 then ⟨401,"Unauthorized","",none⟩ else ⟨200,"OK","{}",none⟩)⟩
  now _ := 0

def versionThenClose : List LinkOp := [.request ⟨.get,"info/version",none,none,none,false⟩,.close]

def afterClose : Link :=
  versionThenClose.foldl (fun s op => op.exec forgetfulPeer s) (Link.fresh "http://pi.hole/api/" "secret")

end Connections
end WormholeObservatory
