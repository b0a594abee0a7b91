import WormholeObservatory.ConnectionSessions
import WormholeObservatory.Urls

/-! The address of a Pi-hole, and the one client that is kept for it. -/
namespace WormholeObservatory
namespace Connections

open Urls
open JsonValues
open Transition (Run)

/-- What `normalize_api_url` raises: a complaint with a fixed text, the one that shows the address,
or one of `urlsplit`. -/
inductive UrlFault
  | valueError (message : String)
  | invalidBaseUrl
  | split
  deriving DecidableEq

/-- `path[: -len(tail)]` if the path ends in it. -/
def dropTail (tail : String) (path : List Char) : List Char :=
  if tail.toList.isSuffixOf path then path.take (path.length-tail.toList.length) else path

/-- What stands before `/api/` in the end. -/
def apiRoot (path : List Char) : List Char :=
  let path := path.rdropWhile (· == '/')
  let path :=
    if "/admin/index.php".toList.isSuffixOf path then dropTail "/admin/index.php" path
    else dropTail "/admin" path
  dropTail "/api" path

section Addresses

variable [NetlocTables]

/-- `normalize_api_url`. -/
def normalizeApiUrl (baseUrl : String) : Except UrlFault String :=
  let value := strip baseUrl
  if value = "" then .error (.valueError "Pi-hole base URL must not be empty")
  else
    let value := if contains value "://" then value else "http://"++value
    match urlsplit value.toList with
    | none => .error .split
    | some parsed =>
      if hostname parsed.netloc = [] then .error .invalidBaseUrl
      else if parsed.scheme ≠ "http".toList ∧ parsed.scheme ≠ "https".toList then
        .error (.valueError "Pi-hole base URL must use http or https")
      else if '@' ∈ parsed.netloc then
        .error (.valueError "Pi-hole credentials must not be embedded in the base URL")
      else .ok (String.ofList (urlunsplit
        ⟨parsed.scheme,parsed.netloc,apiRoot parsed.path++"/api/".toList,[],[]⟩))

omit [NetlocTables] in
theorem dropTail_initial (tail : String) (path : List Char) : dropTail tail path <+: path := by
  rw [dropTail]
  split
  · exact List.take_prefix _ _
  · exact List.prefix_refl _

omit [NetlocTables] in
theorem apiRoot_initial (path : List Char) : apiRoot path <+: path := by
  simp only [apiRoot]
  refine (dropTail_initial _ _).trans ?_
  split
  · exact (dropTail_initial _ _).trans ( List.rdropWhile_prefix _ _)
  · exact (dropTail_initial _ _).trans ( List.rdropWhile_prefix _ _)

omit [NetlocTables] in
/-- A text with another last letter does not end in `tail`. -/
theorem not_suffix_of_last {tail path : List Char} {c d : Char} (htail : tail.getLast? = some c)
    (hne : d ≠ c) : tail.isSuffixOf (path++[d]) = false := by
  rw [← Bool.not_eq_true,List.isSuffixOf_iff_suffix]
  rintro ⟨rest,hrest⟩
  have hlast := congrArg List.getLast? hrest
  have hnil : tail ≠ [] := by
    rintro rfl
    cases htail
  rw [List.getLast?_append_of_ne_nil _ hnil,htail,List.getLast?_append] at hlast
  exact hne (Option.some.inj hlast).symm

omit [NetlocTables] in
theorem dropTail_append (tail : String) (path : List Char) :
    dropTail tail (path++tail.toList) = path := by
  rw [dropTail,if_pos (List.isSuffixOf_iff_suffix.mpr (List.suffix_append _ _))]
  simp

omit [NetlocTables] in
/-- The path of an address that is normalised stays as it is. -/
theorem apiRoot_append (root : List Char) : apiRoot (root++"/api/".toList) = root := by
  have htrim : (root++"/api/".toList).rdropWhile (· == '/') = root++"/api".toList := by
    have hsplit : root++"/api/".toList = (root++"/api".toList)++['/'] := by simp
    have hlast : root++"/api".toList = (root++"/ap".toList)++['i'] := by simp
    rw [hsplit,List.rdropWhile_concat_pos _ _ _ (by decide),hlast,
      List.rdropWhile_concat_neg _ _ _ (by decide)]
  have hlast : root++"/api".toList = (root++"/ap".toList)++['i'] := by simp
  have hindex : "/admin/index.php".toList.isSuffixOf (root++"/api".toList) = false := by
    rw [hlast]
    exact not_suffix_of_last (c := 'p') (by decide) (by decide)
  have hadmin : "/admin".toList.isSuffixOf (root++"/api".toList) = false := by
    rw [hlast]
    exact not_suffix_of_last (c := 'n') (by decide) (by decide)
  have hkeep : dropTail "/admin" (root++"/api".toList) = root++"/api".toList := by
    rw [dropTail,hadmin,if_neg (by decide)]
  simp only [apiRoot,htrim,hindex,Bool.false_eq_true,if_false]
  rw [hkeep,dropTail_append]

/-- An address that is normalised: what it is put together from. -/
structure Normalised (address : String) (parts : SplitResult) : Prop where
  address : address = String.ofList (urlunsplit parts)
  absolute : parts.Absolute
  host : hostname parts.netloc ≠ []
  scheme : parts.scheme = "http".toList ∨ parts.scheme = "https".toList
  credentials : '@' ∉ parts.netloc
  path : ∃ root, parts.path = root++"/api/".toList
  query : parts.query = []
  fragment : parts.fragment = []

theorem normalizeApiUrl_normalised {baseUrl address : String}
    (h : normalizeApiUrl baseUrl = .ok address) : ∃ parts, Normalised address parts := by
  simp only [normalizeApiUrl] at h
  split at h
  · cases h
  generalize (if contains (strip baseUrl) "://" = true then strip baseUrl
    else "http://"++strip baseUrl) = value at h
  cases hsplit : urlsplit value.toList with
  | none =>
    rw [hsplit] at h
    cases h
  | some parsed =>
    simp only [hsplit] at h
    split at h
    · cases h
    rename_i hhost
    split at h
    · cases h
    rename_i hscheme
    split at h
    · cases h
    rename_i hcredentials
    cases h
    have hweb : parsed.scheme = "http".toList ∨ parsed.scheme = "https".toList := by
      by_contra hneither
      exact hscheme (not_or.mp hneither)
    have hnetloc : parsed.netloc ≠ [] := by
      intro hnil
      rw [hnil] at hhost
      exact hhost (by decide)
    have habsolute := urlsplit_absolute hsplit (by rcases hweb with h | h <;> simp [h]) hnetloc
    obtain ⟨rest,hinitial⟩ := apiRoot_initial parsed.path
    have hroot : ∀ c ∈ apiRoot parsed.path, c ∈ parsed.path := fun c hc => by
      rw [← hinitial]
      exact List.mem_append_left _ hc
    refine ⟨_,rfl,⟨habsolute.scheme,habsolute.lower,hnetloc,habsolute.accepted,habsolute.netloc,?_,
      fun c hc => ?_,by simp,fun c hc => ?_⟩,hhost,hweb,hcredentials,⟨_,rfl⟩,rfl,rfl⟩
    · right
      cases happ : apiRoot parsed.path with
      | nil => rfl
      | cons c cs =>
        rcases habsolute.rooted with hnil | hhead
        · have := hroot c (by simp [happ])
          simp [hnil] at this
        · rw [← hinitial,happ] at hhead
          exact hhead
    · rcases List.mem_append.mp hc with hc | hc
      · exact habsolute.path c (hroot c hc)
      · have hall : ∀ c ∈ "/api/".toList, c ≠ '?' ∧ c ≠ '#' := by decide
        exact hall c hc
    · simp only [List.append_nil,List.mem_append] at hc
      rcases hc with hc | hc | hc
      · exact habsolute.clean c (by simp [hc])
      · exact habsolute.clean c (by simp [hroot c hc])
      · have hall : ∀ c ∈ "/api/".toList, isUnsafe c = false := by decide
        exact hall c hc

theorem Normalised.normalizeApiUrl {address : String} {parts : SplitResult}
    (h : Normalised address parts) : normalizeApiUrl address = .ok address := by
  obtain ⟨root,hroot⟩ := h.path
  have hlist : address.toList = urlunsplit parts := by rw [h.address,String.toList_ofList]
  have hends : ∃ l, address.toList = 'h'::l++['/'] := by
    rw [hlist,h.absolute.urlunsplit_eq,SplitResult.tail,hroot,h.query,h.fragment]
    rcases h.scheme with hscheme | hscheme
    · refine ⟨"ttp://".toList++parts.netloc++root++"/api".toList,?_⟩
      simp [hscheme]
    · refine ⟨"ttps://".toList++parts.netloc++root++"/api".toList,?_⟩
      simp [hscheme]
  obtain ⟨l,hends⟩ := hends
  have hstrip : strip address = address := strip_of_ends hends (by decide) (by decide)
  have hne : address ≠ "" := by
    rintro rfl
    simp at hends
  have hslashes : contains address "://" = true := by
    rw [contains_iff,hlist,h.absolute.urlunsplit_eq]
    exact ⟨parts.scheme,parts.netloc++parts.tail,by simp⟩
  have hsplit : urlsplit address.toList = some parts := by
    rw [hlist]
    exact urlsplit_urlunsplit h.absolute
  have hscheme : ¬(parts.scheme ≠ "http".toList ∧ parts.scheme ≠ "https".toList) := by
    rintro ⟨hhttp,hhttps⟩
    exact h.scheme.elim hhttp hhttps
  have hsame : (⟨parts.scheme,parts.netloc,apiRoot parts.path++"/api/".toList,[],[]⟩ : SplitResult) =
      parts := by
    rw [hroot,apiRoot_append]
    obtain ⟨scheme,netloc,path,query,fragment⟩ := parts
    simp only [SplitResult.mk.injEq]
    exact ⟨trivial,trivial,hroot.symm,h.query.symm,h.fragment.symm⟩
  simp only [Connections.normalizeApiUrl,hstrip,if_neg hne,hslashes,if_true,hsplit,if_neg h.host,
    if_neg hscheme,if_neg h.credentials,hsame]
  rw [← h.address]

/-- An address that is accepted is normalised for good: it is taken as it is the next time, and it
is an HTTP address with a host, without credentials, that ends in `/api/`. -/
theorem normalizeApiUrl_idempotent {baseUrl address : String}
    (h : normalizeApiUrl baseUrl = .ok address) : normalizeApiUrl address = .ok address ∧
      ∃ parts : SplitResult, urlsplit address.toList = some parts ∧
        (parts.scheme = "http".toList ∨ parts.scheme = "https".toList) ∧
        hostname parts.netloc ≠ [] ∧ '@' ∉ parts.netloc ∧
        "/api/".toList <:+ parts.path ∧ parts.query = [] ∧ parts.fragment = [] := by
  obtain ⟨parts,hparts⟩ := normalizeApiUrl_normalised h
  refine ⟨hparts.normalizeApiUrl,parts,?_,hparts.scheme,hparts.host,hparts.credentials,?_,
    hparts.query,hparts.fragment⟩
  · rw [hparts.address,String.toList_ofList]
    exact urlsplit_urlunsplit hparts.absolute
  · obtain ⟨root,hroot⟩ := hparts.path
    exact ⟨root,hroot.symm⟩

end Addresses

/-- The page of the web interface is where its API is. -/
theorem normalizeApiUrl_admin_page :
    normalizeApiUrl " pi.hole:8080/admin/index.php?x#y" = .ok "http://pi.hole:8080/api/" ∧
      normalizeApiUrl "http://pi.hole:8080/api/" = .ok "http://pi.hole:8080/api/" := by
  have haddress : normalizeApiUrl " pi.hole:8080/admin/index.php?x#y" =
      .ok "http://pi.hole:8080/api/" := by decide +kernel
  exact ⟨haddress,(normalizeApiUrl_idempotent haddress).1⟩

/-! The client of the service. -/

/-- `PiHoleOptions`. -/
structure Settings where
  baseUrl : String
  password : String
  caBundlePath : String
  timeoutSec : ℚ

/-- `_signature`. -/
def Settings.signature (settings : Settings) : String × String × String × ℚ :=
  (strip settings.baseUrl,settings.password,strip settings.caBundlePath,settings.timeoutSec)

/-- `_CLIENT` and `_CLIENT_SIGNATURE`; the clients are those that were ever built, in order. -/
structure Clients where
  built : List Link
  current : Option ℕ
  signature : Option (String × String × String × ℚ)

def Clients.none : Clients := ⟨[],.none,.none⟩

section Service

variable [NetlocTables] [ValueTexts]

/-- `_CLIENT.close()`. -/
def Clients.closeCurrent (peer : ℕ → Peer) (c : Clients) : List Link :=
  match c.current with
  | .none => c.built
  | some i => c.built.modify i fun link => link.close (peer i)

/-- `configure_client`; the client it returns, or what the constructor raises. -/
def configureClient (peer : ℕ → Peer) (settings : Settings) (c : Clients) :
    Except UrlFault ℕ × Clients :=
  match c.current with
  | some i =>
    if c.signature = some settings.signature then (.ok i,c)
    else
      match normalizeApiUrl settings.baseUrl with
      | .error fault => (.error fault,{ c with built := c.closeCurrent peer })
      | .ok baseUrl => (.ok c.built.length,
          ⟨c.closeCurrent peer++[.fresh baseUrl settings.password],some c.built.length,
            some settings.signature⟩)
  | .none =>
    match normalizeApiUrl settings.baseUrl with
    | .error fault => (.error fault,c)
    | .ok baseUrl => (.ok c.built.length,
        ⟨c.built++[.fresh baseUrl settings.password],some c.built.length,some settings.signature⟩)

/-- `close_client`. -/
def closeClient (peer : ℕ → Peer) (c : Clients) : Clients :=
  ⟨c.closeCurrent peer,.none,.none⟩

/-- What a process does with its clients. Any client that was ever handed out may be in use. -/
inductive ClientOp
  | configure (settings : Settings)
  | closeClient
  | request (i : ℕ) (call : Call)

def ClientOp.exec (peer : ℕ → Peer) (c : Clients) : ClientOp → Clients
  | .configure settings => (configureClient peer settings c).2
  | .closeClient => Connections.closeClient peer c
  | .request i call => { c with
      built := c.built.modify i fun link => (LinkOp.request call).exec (peer i) link }

def Clients.Step (peer : ℕ → Peer) (c : Clients) (op : ClientOp) (c' : Clients) : Prop :=
  op.exec peer c = c'

/-- Settings no client can be built from. -/
def Settings.Unusable (settings : Settings) : Prop :=
  ∃ fault, normalizeApiUrl settings.baseUrl = .error fault

omit [ValueTexts] in
/-- Settings with the same signature can be used alike. -/
theorem unusable_of_signature {a b : Settings} (h : a.signature = b.signature) :
    a.Unusable ↔ b.Unusable := by
  have hstrip : strip a.baseUrl = strip b.baseUrl := congrArg Prod.fst h
  simp only [Settings.Unusable,normalizeApiUrl,hstrip]

omit [NetlocTables] in
theorem close_closed (peer : Peer) (link : Link) : (link.close peer).closed = true := by
  rw [Link.close]
  split
  · assumption
  · rfl

omit [NetlocTables] in
theorem request_closed (peer : Peer) (call : Call) (link : Link) :
    ((LinkOp.request call).exec peer link).closed = link.closed := by
  obtain ⟨logins,own,logins',own',hdelivered⟩ := call_sent_at_most_twice peer call link
  exact hdelivered.closed

/-- What is known of the clients after `ops`: only the current one can be open, it was built for the
current signature, and it is closed if and only if settings no client can be built from came since. -/
structure Tracked (ops : List ClientOp) (c : Clients) : Prop where
  only : ∀ i link, c.built[i]? = some link → link.closed = false → c.current = some i
  current : ∀ i, c.current = some i → ∃ before settings after link,
    ops = before++.configure settings::after ∧ ¬settings.Unusable ∧
    c.signature = some settings.signature ∧ c.built[i]? = some link ∧
    (link.closed = true ↔ ∃ settings', .configure settings' ∈ after ∧ settings'.Unusable)

variable {peer : ℕ → Peer} {ops : List ClientOp} {c : Clients}

/-- After the current client was closed, none is open. -/
theorem Tracked.closeCurrent (h : Tracked ops c) :
    ∀ link ∈ c.closeCurrent peer, link.closed = true := by
  intro link hlink
  obtain ⟨i,hi⟩ := List.mem_iff_getElem?.mp hlink
  rw [Clients.closeCurrent] at hi
  cases hcurrent : c.current with
  | none =>
    rw [hcurrent] at hi
    by_contra hopen
    have := h.only i link hi (by simpa using hopen)
    rw [hcurrent] at this
    cases this
  | some j =>
    rw [hcurrent] at hi
    simp only [List.getElem?_modify] at hi
    cases hbuilt : c.built[i]? with
    | none => simp [hbuilt] at hi
    | some old =>
      rw [hbuilt] at hi
      split at hi
      · obtain rfl := Option.some.inj hi
        exact close_closed _ _
      · rename_i hne
        obtain rfl := Option.some.inj hi
        by_contra hopen
        have := h.only i old hbuilt (by simpa using hopen)
        rw [hcurrent] at this
        exact hne (Option.some.inj this)

omit [ValueTexts] in
/-- A client that is built is open, and there is no other. -/
theorem Tracked.build {settings : Settings} {baseUrl : String} {built : List Link}
    (hok : normalizeApiUrl settings.baseUrl = .ok baseUrl)
    (hclosed : ∀ link ∈ built, link.closed = true) :
    Tracked (ops++[.configure settings]) ⟨built++[.fresh baseUrl settings.password],
      some built.length,some settings.signature⟩ := by
  refine ⟨fun i link hlink hopen => ?_,fun i hi => ?_⟩
  · rcases lt_or_ge i built.length with hlt | hge
    · rw [List.getElem?_append_left hlt] at hlink
      have := hclosed link (List.mem_of_getElem? hlink)
      rw [hopen] at this
      cases this
    · obtain ⟨hlength,-⟩ := List.getElem?_eq_some_iff.mp hlink
      rw [List.length_append,List.length_singleton] at hlength
      simp only [Option.some.injEq]
      omega
  · obtain rfl := Option.some.inj hi
    refine ⟨ops,settings,[],.fresh baseUrl settings.password,rfl,?_,rfl,by simp,?_⟩
    · rintro ⟨fault,hfault⟩
      rw [hok] at hfault
      cases hfault
    · simp [Link.fresh]

theorem Tracked.step (h : Tracked ops c) (op : ClientOp) :
    Tracked (ops++[op]) (op.exec peer c) := by
  have hclosed : ∀ link ∈ c.closeCurrent peer, link.closed = true := h.closeCurrent
  cases op with
  | closeClient =>
    refine ⟨fun i link hlink hopen => ?_,fun i hi => by cases hi⟩
    have := hclosed link (List.mem_of_getElem? hlink)
    rw [hopen] at this
    cases this
  | request i call =>
    have hlinks : ∀ (j : ℕ) link, (c.built.modify i fun link =>
        (LinkOp.request call).exec (peer i) link)[j]? = some link →
        ∃ old, c.built[j]? = some old ∧ link.closed = old.closed := by
      intro j link hlink
      rw [List.getElem?_modify] at hlink
      cases hbuilt : c.built[j]? with
      | none => simp [hbuilt] at hlink
      | some old =>
        refine ⟨old,rfl,?_⟩
        rw [hbuilt] at hlink
        split at hlink
        · obtain rfl := Option.some.inj hlink
          exact request_closed _ _ _
        · obtain rfl := Option.some.inj hlink
          rfl
    refine ⟨fun j link hlink hopen => ?_,fun j hj => ?_⟩
    · obtain ⟨old,hold,hsame⟩ := hlinks j link hlink
      exact h.only j old hold (hsame.symm.trans hopen)
    · obtain ⟨before,settings,after,old,hops,husable,hsignature,hold,hiff⟩ := h.current j hj
      have hlink : ∃ link, (c.built.modify i fun link =>
          (LinkOp.request call).exec (peer i) link)[j]? = some link := by
        rw [List.getElem?_modify,hold]
        exact ⟨_,rfl⟩
      obtain ⟨link,hlink⟩ := hlink
      obtain ⟨old',hold',hsame⟩ := hlinks j link hlink
      obtain rfl := Option.some.inj (hold.symm.trans hold')
      refine ⟨before,settings,after++[.request i call],link,by simp [hops],husable,hsignature,hlink,?_⟩
      rw [hsame,hiff]
      simp
  | configure settings =>
    cases hcurrent : c.current with
    | none =>
      have hbuilt : ∀ link ∈ c.built, link.closed = true := by
        intro link hlink
        refine hclosed link ?_
        rwa [Clients.closeCurrent,hcurrent]
      cases hurl : normalizeApiUrl settings.baseUrl with
      | error fault =>
        simp only [ClientOp.exec,configureClient,hcurrent,hurl]
        refine ⟨fun i link hlink hopen => ?_,fun i hi => ?_⟩
        · have := hbuilt link (List.mem_of_getElem? hlink)
          rw [hopen] at this
          cases this
        · rw [hcurrent] at hi
          cases hi
      | ok baseUrl =>
        simp only [ClientOp.exec,configureClient,hcurrent,hurl]
        exact .build hurl hbuilt
    | some i =>
      obtain ⟨before,built,after,link,hops,husable,hsignature,hlink,hiff⟩ := h.current i hcurrent
      by_cases hsame : c.signature = some settings.signature
      · simp only [ClientOp.exec,configureClient,hcurrent,if_pos hsame]
        refine ⟨h.only,fun j hj => ?_⟩
        obtain rfl := Option.some.inj (hcurrent.symm.trans hj)
        refine ⟨before,built,after++[.configure settings],link,by simp [hops],husable,hsignature,hlink,?_⟩
        have hsettings : ¬settings.Unusable := by
          rwa [unusable_of_signature (Option.some.inj (hsame.symm.trans hsignature))]
        rw [hiff]
        simp only [List.mem_append,List.mem_singleton,ClientOp.configure.injEq]
        constructor
        · rintro ⟨settings',hmem,hbad⟩
          exact ⟨settings',.inl hmem,hbad⟩
        · rintro ⟨settings',hmem | rfl,hbad⟩
          · exact ⟨settings',hmem,hbad⟩
          · exact absurd hbad hsettings
      · cases hurl : normalizeApiUrl settings.baseUrl with
        | error fault =>
          simp only [ClientOp.exec,configureClient,hcurrent,if_neg hsame,hurl]
          refine ⟨fun j link' hlink' hopen => ?_,fun j hj => ?_⟩
          · have := hclosed link' (List.mem_of_getElem? hlink')
            rw [hopen] at this
            cases this
          · obtain rfl := Option.some.inj hj
            have hleft : (c.closeCurrent peer)[i]? = some (link.close (peer i)) := by
              rw [Clients.closeCurrent,hcurrent,List.getElem?_modify,hlink]
              simp
            refine ⟨before,built,after++[.configure settings],_,by simp [hops],husable,hsignature,
              hleft,fun _ => ⟨settings,by simp,fault,hurl⟩,fun _ => close_closed _ _⟩
        | ok baseUrl =>
          have hlength : (c.closeCurrent peer).length = c.built.length := by
            rw [Clients.closeCurrent,hcurrent,List.length_modify]
          simp only [ClientOp.exec,configureClient,hcurrent,if_neg hsame,hurl,← hlength]
          exact .build hurl hclosed

end Service

/-! Settings that cannot be used, between two uses of the same ones. -/

def goodSettings : Settings := ⟨"pi.hole","","",10⟩

def badSettings : Settings := ⟨"ftp://pi.hole","","",10⟩

def reconfigured : Clients :=
  [ClientOp.configure goodSettings,.configure badSettings,.configure goodSettings].foldl
    (fun c op => op.exec (fun _ => forgetfulPeer) c) Clients.none

end Connections
end WormholeObservatory
