import TradeGate.Model.Network

/-! A tunnel is open exactly if the proxy granted it in full; nothing of what comes after is taken away, and the
proxy reads the host that was asked for. -/
namespace TradeGate.Network
open Talk

/-! What a SOCKS server answers. -/

/-- The method that is picked, and the answer to a login. -/
inductive Picks (user : String) : Bool → List UInt8 → Prop
  | free : Picks user false [5,0]
  | login {v : UInt8} : user ≠ "" → Picks user true [5,2,v,0]

/-- The connection is made; the address that it is made from stands behind. -/
inductive Binds : List UInt8 → Prop
  | v4 {v r : UInt8} {bound : List UInt8} : bound.length=4+2 → Binds ([v,0,r,1]++bound)
  | v6 {v r : UInt8} {bound : List UInt8} : bound.length=16+2 → Binds ([v,0,r,4]++bound)
  | name {v r n : UInt8} {bound : List UInt8} : bound.length=n.toNat+2 → Binds ([v,0,r,3]++n::bound)

/-- What is asked for: the host if the proxy is to resolve it, else its first IPv4 address or its first at all. -/
inductive Names [Net] (scheme host : String) (port : UInt16) : UInt8 → List UInt8 → Prop
  | v4 {addrs : List IpAddr} {octets : Vector UInt8 4} : scheme="socks5" → Net.lookupHost host port=.ok addrs →
      addrs.find? IpAddr.isIpv4=some (.v4 octets) → Names scheme host port 1 octets.toList
  | v6 {addrs : List IpAddr} {octets : Vector UInt8 16} : scheme="socks5" → Net.lookupHost host port=.ok addrs →
      (∀ a ∈ addrs, a.isIpv4=false) → addrs.head?=some (.v6 octets) → Names scheme host port 4 octets.toList
  | host : scheme ≠ "socks5" → Names scheme host port 3 (bytes host)

/-- The words and the answers of a tunnel that is opened. -/
inductive Opens [Net] (proxy : Proxy) (host : String) (port : UInt16) : List UInt8 → List UInt8 → Prop
  | connect {heard : List UInt8} : proxy.scheme.getD "http"="http" → Upto endsBlank 8192 heard → accepted heard →
      Opens proxy host port (bytes (connectRequest proxy host port)) heard
  | socks {scheme user pass : String} {picked : Bool} {method bound address : List UInt8} : proxy.scheme=some scheme →
      scheme="socks5" ∨ scheme="socks5h" → proxy.rawAuth.getD ("","")=(user,pass) → ¬tooLong user pass host →
      Picks user picked method → target scheme host port=.ok address → Binds bound →
      Opens proxy host port (greeting user++(if picked then auth user pass else [])++connectTo address port)
        (method++bound)

/-- What was said when, whether the tunnel is opened or not: the login only to a proxy that picks it, the address
only to one that lets the client in. -/
inductive Shown (user pass : String) : List UInt8 → List UInt8 → Prop
  | nothing {heard : List UInt8} : Shown user pass [] heard
  | greeted {heard : List UInt8} : Shown user pass (greeting user) heard
  | login {rest : List UInt8} : user ≠ "" → Shown user pass (greeting user++auth user pass) ([5,2]++rest)
  | asked {picked : Bool} {method rest address : List UInt8} {port : UInt16} : Picks user picked method →
      Shown user pass (greeting user++(if picked then auth user pass else [])++connectTo address port) (method++rest)

/-! A SOCKS server, as it reads its client. -/

structure Asked where
  login : Option (List UInt8 × List UInt8)
  kind : UInt8
  address : List UInt8
  port : ℕ

def chunk (n : ℕ) (bs : List UInt8) : Option (List UInt8 × List UInt8) :=
  if n ≤ bs.length then some (bs.take n,bs.drop n) else none

/-- A length, and as many bytes. -/
def field : List UInt8 → Option (List UInt8 × List UInt8)
  | n::bs => chunk n.toNat bs
  | [] => none

def readLogin : List UInt8 → Option ((List UInt8 × List UInt8) × List UInt8)
  | 1::bs => do
    let (user,bs) ← field bs
    let (pass,bs) ← field bs
    some ((user,pass),bs)
  | _ => none

def readAddress : List UInt8 → Option (UInt8 × List UInt8 × List UInt8)
  | 1::bs => (chunk 4 bs).map (1,·)
  | 4::bs => (chunk 16 bs).map (4,·)
  | 3::bs => (field bs).map (3,·)
  | _ => none

def readRequest (login : Option (List UInt8 × List UInt8)) : List UInt8 → Option Asked
  | 5::1::0::bs => do
    match ← readAddress bs with
    | (kind,address,[high,low]) => some ⟨login,kind,address,high.toNat*256+low.toNat⟩
    | _ => none
  | _ => none

/-- `picked` is what the server picks among the methods that are offered: the login, or none. -/
def readClient (picked : Bool) : List UInt8 → Option Asked
  | 5::bs => do
    let (methods,bs) ← field bs
    if picked then
      if 2 ∈ methods then
        let (login,bs) ← readLogin bs
        readRequest (some login) bs
      else none
    else if 0 ∈ methods then readRequest none bs
    else none
  | _ => none

section
variable {user pass host scheme : String} {port : UInt16} {proxy : Proxy} {address : List UInt8}

theorem authenticate_speaks : Speaks (authenticate user pass) fun _ said heard =>
    said=auth user pass ∧ ∃ v, heard=[v,0] := by
  refine (Speaks.say (.hear fun reply => .ite .fail .done)).congr fun _ said heard => ?_
  constructor
  · rintro ⟨_,⟨reply,_,hlen,⟨-,⟨⟩⟩ | ⟨hz,-,rfl,rfl⟩,rfl⟩,rfl⟩
    obtain ⟨v,z,rfl⟩ := List.length_eq_two.mp hlen
    obtain rfl : z=0 := by simpa using hz
    exact ⟨List.append_nil _,v,rfl⟩
  · rintro ⟨rfl,v,rfl⟩
    exact ⟨[],⟨[v,0],[],rfl,.inr ⟨by simp,rfl,rfl,rfl⟩,rfl⟩,(List.append_nil _).symm⟩

theorem negotiate_speaks : Speaks (negotiate user pass) fun _ said heard =>
    ∃ picked, Picks user picked heard ∧ said=greeting user++if picked then auth user pass else [] := by
  refine (Speaks.say (.hear fun reply => .ite .done (.ite authenticate_speaks .fail))).congr fun _ said heard => ?_
  constructor
  · rintro ⟨_,⟨reply,_,-,⟨rfl,-,rfl,rfl⟩ | ⟨-,⟨⟨rfl,hu⟩,rfl,v,rfl⟩ | ⟨-,⟨⟩⟩⟩,rfl⟩,rfl⟩
    · exact ⟨false,.free,rfl⟩
    · exact ⟨true,.login hu,rfl⟩
  · rintro ⟨picked,hpick,rfl⟩
    cases hpick with
    | free => exact ⟨[],⟨[5,0],[],rfl,.inl ⟨rfl,rfl,rfl,rfl⟩,rfl⟩,rfl⟩
    | @login v hu => exact ⟨_,⟨[5,2],[v,0],rfl,.inr ⟨by decide,.inl ⟨⟨rfl,hu⟩,rfl,v,rfl⟩⟩,rfl⟩,rfl⟩

theorem addrLen_speaks {kind : UInt8} : Speaks (addrLen kind) fun n said heard => said=[] ∧
    (kind=1 ∧ n=4 ∧ heard=[] ∨ kind=4 ∧ n=16 ∧ heard=[] ∨ kind=3 ∧ ∃ b : UInt8, heard=[b] ∧ n=b.toNat) := by
  refine (Speaks.ite .done (.ite .done (.ite (.hear fun len => .done) .fail))).congr fun n said heard => ?_
  constructor
  · rintro (⟨rfl,rfl,rfl,rfl⟩ | ⟨-,⟨rfl,rfl,rfl,rfl⟩ | ⟨-,⟨rfl,len,_,hlen,⟨rfl,rfl,rfl⟩,rfl⟩ | ⟨-,⟨⟩⟩⟩⟩)
    · exact ⟨rfl,.inl ⟨rfl,rfl,rfl⟩⟩
    · exact ⟨rfl,.inr (.inl ⟨rfl,rfl,rfl⟩)⟩
    · obtain ⟨b,rfl⟩ := List.length_eq_one_iff.mp hlen
      exact ⟨rfl,.inr (.inr ⟨rfl,b,rfl,rfl⟩)⟩
  · rintro ⟨rfl,⟨rfl,rfl,rfl⟩ | ⟨rfl,rfl,rfl⟩ | ⟨rfl,b,rfl,rfl⟩⟩
    · exact .inl ⟨rfl,rfl,rfl,rfl⟩
    · exact .inr ⟨by decide,.inl ⟨rfl,rfl,rfl,rfl⟩⟩
    · exact .inr ⟨by decide,.inr ⟨by decide,.inl ⟨rfl,[b],[],rfl,⟨rfl,rfl,rfl⟩,rfl⟩⟩⟩

theorem addrLen_tells {kind : UInt8} : Says (addrLen kind) fun said _ => said=[] := by
  unfold addrLen
  split_ifs
  · exact Says.done.ends rfl
  · exact Says.done.ends rfl
  · exact .hear (fun _ => rfl) fun _ => Says.done.ends rfl
  · exact Says.fail.ends rfl

theorem requestConnect_speaks : Speaks (requestConnect address port) fun _ said heard =>
    said=connectTo address port ∧ Binds heard := by
  refine (Speaks.say (.hear fun head => .ite .fail (.bind addrLen_speaks fun n => .hear fun rest => .done))).congr
    fun _ said heard => ?_
  constructor
  · rintro ⟨_,⟨head,_,hlen,⟨-,⟨⟩⟩ | ⟨hz,n,_,_,_,_,⟨rfl,hn⟩,⟨rest,_,hrest,⟨-,rfl,rfl⟩,rfl⟩,rfl,rfl⟩,rfl⟩,rfl⟩
    obtain ⟨v,z,r,k,rfl⟩ := List.length_eq_four.mp hlen
    obtain rfl : z=0 := by simpa using hz
    refine ⟨List.append_nil _,?_⟩
    rw [List.append_nil]
    rcases hn with ⟨rfl,rfl,rfl⟩ | ⟨rfl,rfl,rfl⟩ | ⟨rfl,b,rfl,rfl⟩
    · exact .v4 hrest
    · exact .v6 hrest
    · exact .name hrest
  · rintro ⟨rfl,hb⟩
    suffices h : ∃ v r k : UInt8, ∃ n h₁ h₂, heard=[v,0,r,k]++(h₁++h₂) ∧ h₂.length=n+2 ∧
        (k=1 ∧ n=4 ∧ h₁=[] ∨ k=4 ∧ n=16 ∧ h₁=[] ∨ k=3 ∧ ∃ b : UInt8, h₁=[b] ∧ n=b.toNat) by
      obtain ⟨v,r,k,n,h₁,h₂,rfl,hlen,hk⟩ := h
      refine ⟨[],⟨[v,0,r,k],h₁++h₂,rfl,.inr ⟨by simp,n,[],h₁,[],h₂,⟨rfl,hk⟩,?_,rfl,rfl⟩,rfl⟩,(List.append_nil _).symm⟩
      exact ⟨h₂,[],hlen,⟨rfl,rfl,rfl⟩,(List.append_nil _).symm⟩
    cases hb with
    | @v4 v r bound h => exact ⟨v,r,1,4,[],bound,rfl,h,.inl ⟨rfl,rfl,rfl⟩⟩
    | @v6 v r bound h => exact ⟨v,r,4,16,[],bound,rfl,h,.inr (.inl ⟨rfl,rfl,rfl⟩)⟩
    | @name v r n bound h => exact ⟨v,r,3,n.toNat,[n],bound,rfl,h,.inr (.inr ⟨rfl,n,rfl,rfl⟩)⟩

theorem httpTunnel_speaks : Speaks (httpTunnel proxy host port) fun _ said heard =>
    said=bytes (connectRequest proxy host port) ∧ Upto endsBlank 8192 heard ∧ accepted heard := by
  refine (Speaks.say (.bind .readUntil fun response => .ite .done .fail)).congr fun _ said heard => ?_
  constructor
  · rintro ⟨_,⟨response,_,_,_,_,⟨rfl,hresponse,hupto⟩,⟨ha,-,rfl,rfl⟩ | ⟨-,⟨⟩⟩,rfl,rfl⟩,rfl⟩
    subst hresponse
    exact ⟨List.append_nil _,by rwa [List.append_nil],by rwa [List.append_nil]⟩
  · rintro ⟨rfl,hupto,ha⟩
    exact ⟨[],⟨heard,[],heard,[],[],⟨rfl,rfl,hupto⟩,.inl ⟨ha,rfl,rfl,rfl⟩,rfl,(List.append_nil _).symm⟩,
      (List.append_nil _).symm⟩

/-! What was said when the talk fails. -/

theorem authenticate_tells : Says (authenticate user pass) fun said _ => said=auth user pass := by
  refine .say rfl (.hear (fun _ => List.append_nil _) fun reply => ?_)
  split_ifs
  · exact Says.fail.ends (List.append_nil _)
  · exact Says.done.ends (List.append_nil _)

theorem requestConnect_tells : Says (requestConnect address port) fun said _ => said=connectTo address port := by
  refine .say rfl (.hear (fun _ => List.append_nil _) fun head => ?_)
  split_ifs
  · exact Says.fail.ends (List.append_nil _)
  · refine .bind addrLen_speaks (addrLen_tells.mono fun said _ h => h ▸ List.append_nil _) fun n _ _ hn => ?_
    obtain ⟨rfl,-⟩ := hn
    exact .hear (fun _ => List.append_nil _) fun rest => Says.done.ends (List.append_nil _)

theorem negotiate_tells : Says (negotiate user pass) (Shown user pass) := by
  have hgreeted : ∀ heard, Shown user pass (greeting user++[]) heard := fun heard => by
    rw [List.append_nil]
    exact .greeted
  refine .say .greeted (.hear hgreeted fun reply => ?_)
  split_ifs with hfree hlogin
  · exact Says.done.ends (hgreeted _)
  · refine authenticate_tells.mono fun said heard h => ?_
    rw [h,hlogin.1]
    exact .login hlogin.2
  · exact Says.fail.ends (hgreeted _)

/-! What is sent reads back. -/

theorem chunk_append (a bs : List UInt8) : chunk a.length (a++bs)=some (a,bs) := by
  simp [chunk]

theorem field_append {a : List UInt8} (h : a.length ≤ 255) (bs : List UInt8) : field (len8 a::(a++bs))=some (a,bs) := by
  have hn : (len8 a).toNat=a.length := by
    rw [len8,UInt8.toNat_ofNat']
    omega
  rw [field,hn,chunk_append]

theorem readLogin_auth (hu : (bytes user).length ≤ 255) (hp : (bytes pass).length ≤ 255) (bs : List UInt8) :
    readLogin (auth user pass++bs)=some ((bytes user,bytes pass),bs) := by
  have h : auth user pass++bs=1::(len8 (bytes user)::(bytes user++len8 (bytes pass)::(bytes pass++bs))) := by
    simp [auth]
  simp [h,readLogin,field_append hu,field_append hp]

theorem readRequest_connectTo {address named : List UInt8} {kind : UInt8} (login : Option (List UInt8 × List UInt8))
    (h : ∀ bs, readAddress (address++bs)=some (kind,named,bs)) :
    readRequest login (connectTo address port)=some ⟨login,kind,named,port.toNat⟩ := by
  have hport : port.toNat<2^16 := port.toNat_lt
  simp [connectTo,readRequest,h,portBytes]
  omega

theorem readClient_greeting {picked : Bool} {method : List UInt8} (hpick : Picks user picked method) (bs : List UInt8) :
    readClient picked (greeting user++bs)=
      if picked then (readLogin bs).bind fun (login,bs) => readRequest (some login) bs else readRequest none bs := by
  cases hpick with
  | free =>
    by_cases hu : user="" <;> simp [greeting,hu,readClient,field,chunk]
  | login hu =>
    simp [greeting,hu,readClient,field,chunk]

variable [Net]

theorem socksTunnel_speaks (hlogin : proxy.rawAuth.getD ("","")=(user,pass)) :
    Speaks (socksTunnel scheme proxy host port) fun _ said heard => ¬tooLong user pass host ∧
      ∃ picked method bound address, Picks user picked method ∧ target scheme host port=.ok address ∧ Binds bound ∧
        said=greeting user++(if picked then auth user pass else [])++connectTo address port ∧ heard=method++bound := by
  unfold socksTunnel
  rw [hlogin]
  cases htarget : target scheme host port with
  | error e =>
    refine (Speaks.ite .fail (.bind negotiate_speaks fun _ => .fail)).congr fun _ said heard => ?_
    simp
  | ok address =>
    refine (Speaks.ite .fail (.bind negotiate_speaks fun _ => requestConnect_speaks)).congr fun _ said heard => ?_
    constructor
    · rintro (⟨-,⟨⟩⟩ | ⟨hlong,_,_,method,_,bound,⟨picked,hpick,rfl⟩,⟨rfl,hbound⟩,rfl,rfl⟩)
      exact ⟨hlong,picked,method,bound,address,hpick,rfl,hbound,rfl,rfl⟩
    · rintro ⟨hlong,picked,method,bound,_,hpick,⟨rfl⟩,hbound,rfl,rfl⟩
      exact .inr ⟨hlong,(),_,method,_,bound,⟨picked,hpick,rfl⟩,⟨rfl,hbound⟩,rfl,rfl⟩

theorem tunnel_speaks : Speaks (tunnel proxy host port) fun _ said heard => Opens proxy host port said heard := by
  obtain ⟨⟨user,pass⟩,hlogin⟩ : ∃ login, proxy.rawAuth.getD ("","")=login := ⟨_,rfl⟩
  refine (Speaks.ite httpTunnel_speaks (.ite (socksTunnel_speaks hlogin) .fail)).congr fun _ said heard => ?_
  constructor
  · rintro (⟨hs,rfl,hupto,ha⟩ | ⟨hs,⟨hsocks,hlong,picked,method,bound,address,hpick,ht,hb,rfl,rfl⟩ | ⟨-,⟨⟩⟩⟩)
    · exact .connect hs hupto ha
    · cases hscheme : proxy.scheme with
      | none => simp [hscheme] at hs
      | some scheme =>
        simp only [hscheme,Option.getD_some] at hsocks ht
        exact .socks hscheme hsocks hlogin hlong hpick ht hb
  · intro h
    cases h with
    | connect hs hupto ha => exact .inl ⟨hs,rfl,hupto,ha⟩
    | @socks scheme user' pass' picked method bound address hscheme hsocks hlogin' hlong hpick ht hb =>
      obtain ⟨rfl,rfl⟩ := Prod.mk.inj (hlogin.symm.trans hlogin')
      simp only [hscheme,Option.getD_some]
      refine .inr ⟨?_,.inl ⟨hsocks,hlong,picked,method,bound,address,hpick,ht,hb,rfl,rfl⟩⟩
      rcases hsocks with rfl | rfl <;> decide

theorem target_reads {address : List UInt8} (h : target scheme host port=.ok address)
    (hh : (bytes host).length ≤ 255) : ∃ kind named, Names scheme host port kind named ∧
      ∀ bs, readAddress (address++bs)=some (kind,named,bs) := by
  unfold target at h
  split_ifs at h with hs
  · split at h
    · cases h
    · rename_i addrs hl
      cases hf : addrs.find? IpAddr.isIpv4 with
      | some a =>
        cases a with
        | v4 octets =>
          rw [hf] at h
          cases h
          refine ⟨1,octets.toList,.v4 hs hl hf,fun bs => ?_⟩
          have := chunk_append octets.toList bs
          rw [Vector.length_toList] at this
          simp [readAddress,this]
        | v6 octets => simpa [IpAddr.isIpv4] using List.find?_some hf
      | none =>
        rw [hf] at h
        cases hhead : addrs.head? with
        | none => simp [hhead] at h
        | some a =>
          have hall : ∀ a ∈ addrs, a.isIpv4=false := by simpa using List.find?_eq_none.mp hf
          cases a with
          | v4 octets => simpa [IpAddr.isIpv4] using hall _ (List.mem_of_mem_head? hhead)
          | v6 octets =>
            rw [hhead] at h
            cases h
            refine ⟨4,octets.toList,.v6 hs hl hall hhead,fun bs => ?_⟩
            have := chunk_append octets.toList bs
            rw [Vector.length_toList] at this
            simp [readAddress,this]
  · cases h
    exact ⟨3,_,.host hs,fun bs => by simp [readAddress,field_append hh]⟩

theorem socksTunnel_tells (hlogin : proxy.rawAuth.getD ("","")=(user,pass)) :
    Says (socksTunnel scheme proxy host port) (Shown user pass) := by
  unfold socksTunnel
  rw [hlogin]
  dsimp only
  split_ifs
  · exact Says.fail.ends .nothing
  refine .bind negotiate_speaks negotiate_tells fun _ _ method hn => ?_
  obtain ⟨picked,hpick,rfl⟩ := hn
  cases htarget : target scheme host port with
  | error e =>
    refine Says.fail.ends ?_
    rw [List.append_nil,List.append_nil]
    cases hpick with
    | free =>
      rw [if_neg Bool.false_ne_true,List.append_nil]
      exact .greeted
    | login hu => exact .login hu
  | ok address =>
    refine requestConnect_tells.mono fun said rest h => ?_
    rw [h]
    exact .asked hpick

theorem tunnel_tells (hs : proxy.scheme.getD "http" ≠ "http") (hlogin : proxy.rawAuth.getD ("","")=(user,pass)) :
    Says (tunnel proxy host port) (Shown user pass) := by
  unfold tunnel
  dsimp only
  rw [if_neg hs]
  split_ifs
  · exact socksTunnel_tells hlogin
  · exact Says.fail.ends .nothing

theorem opens_reads {said heard : List UInt8} (h : Opens proxy host port said heard) :
    proxy.scheme.getD "http"="http" ∨ ∃ scheme user pass picked kind named, proxy.scheme=some scheme ∧
      proxy.rawAuth.getD ("","")=(user,pass) ∧ Names scheme host port kind named ∧
      readClient picked said=some ⟨if picked then some (bytes user,bytes pass) else none,kind,named,port.toNat⟩ := by
  cases h with
  | connect hs => exact .inl hs
  | @socks scheme user pass picked method bound address hscheme hsocks hlogin hlong hpick ht hb =>
    simp only [tooLong,not_or,not_lt] at hlong
    obtain ⟨hu,hp,hh⟩ := hlong
    obtain ⟨kind,named,hnames,hreads⟩ := target_reads ht hh
    refine .inr ⟨scheme,user,pass,picked,kind,named,hscheme,hlogin,hnames,?_⟩
    rw [List.append_assoc,readClient_greeting hpick]
    cases picked with
    | false => exact readRequest_connectTo none hreads
    | true => simp [readLogin_auth hu hp,readRequest_connectTo _ hreads]

end

/-- The way through a proxy is what became of the dialling and of the tunnel. -/
theorem proxied_iff [Net] {url host : String} {port : UInt16} {proxy : Proxy} {incoming : List UInt8}
    (hauth : wsAuthority url=(host,port)) (hproxy : Net.intercept ("https://"++hostPort host port++"/")=some proxy)
    (result : Except WsError Unit) (conn : Conn) : connectWsViaProxy url incoming=.proxied result conn ↔
      (∃ e, Net.dial (proxy.host.getD "") (proxy.port.getD (defaultPort proxy))=.error e ∧
        result=.error (.dial e) ∧ conn=⟨[],incoming⟩) ∨
      Net.dial (proxy.host.getD "") (proxy.port.getD (defaultPort proxy))=.ok () ∧
        tunnel proxy host port ⟨[],incoming⟩=(result,conn) := by
  unfold connectWsViaProxy
  simp only [hauth,hproxy]
  cases Net.dial (proxy.host.getD "") (proxy.port.getD (defaultPort proxy)) with
  | error e =>
    constructor
    · rintro ⟨⟩
      exact .inl ⟨e,rfl,rfl,rfl⟩
    · rintro (⟨_,⟨⟩,rfl,rfl⟩ | ⟨⟨⟩,-⟩)
      rfl
  | ok u =>
    constructor
    · rintro ⟨⟩
      exact .inr ⟨rfl,rfl⟩
    · rintro (⟨_,⟨⟩,-⟩ | ⟨-,ht⟩)
      rw [ht]

/-- The connection goes straight to the exchange exactly if no proxy is in the way of it.  A tunnel through a proxy
is open exactly if the proxy granted it in full, and then what comes after is all still there to be read; what was
said reads back, by the lengths in it, as the login, the address and the port.  And however it ends, a SOCKS proxy
gets the login only after it picked that, and the address only after it let the client in. -/
theorem tunnel_opened [Net] (url : String) (incoming : List UInt8) :
    let (host,port) := wsAuthority url
    let proxied := Net.intercept ("https://"++hostPort host port++"/")
    (connectWsViaProxy url incoming=.direct ↔ proxied=none) ∧
    ∀ proxy, proxied=some proxy →
      (∀ said unread, connectWsViaProxy url incoming=.proxied (.ok ()) ⟨said,unread⟩ ↔
        Net.dial (proxy.host.getD "") (proxy.port.getD (defaultPort proxy))=.ok () ∧
        ∃ heard, Opens proxy host port said heard ∧ incoming=heard++unread) ∧
      (∀ said heard, Opens proxy host port said heard → proxy.scheme.getD "http" ≠ "http" →
        ∃ scheme user pass picked kind named, proxy.scheme=some scheme ∧ proxy.rawAuth.getD ("","")=(user,pass) ∧
          Names scheme host port kind named ∧
          readClient picked said=some ⟨if picked then some (bytes user,bytes pass) else none,kind,named,port.toNat⟩) ∧
      ∀ result said unread user pass, connectWsViaProxy url incoming=.proxied result ⟨said,unread⟩ →
        proxy.scheme.getD "http" ≠ "http" → proxy.rawAuth.getD ("","")=(user,pass) →
        ∃ heard, Shown user pass said heard ∧ incoming=heard++unread := by
  obtain ⟨⟨host,port⟩,hauth⟩ : ∃ authority, wsAuthority url=authority := ⟨_,rfl⟩
  simp only [hauth]
  refine ⟨?_,fun proxy hproxy => ⟨fun said unread => ?_,fun said heard h hs => ?_,
    fun result said unread user pass h hs hlogin => ?_⟩⟩
  · cases hproxy : Net.intercept ("https://"++hostPort host port++"/") with
    | none => simp [connectWsViaProxy,hauth,hproxy]
    | some proxy =>
      simp only [connectWsViaProxy,hauth,hproxy,reduceCtorEq,iff_false]
      split <;> simp
  · rw [proxied_iff hauth hproxy]
    have hopen : tunnel proxy host port ⟨[],incoming⟩=(.ok (),⟨said,unread⟩) ↔ _ := tunnel_speaks ..
    constructor
    · rintro (⟨_,-,⟨⟩,-⟩ | ⟨hdial,ht⟩)
      obtain ⟨_,heard,hopens,rfl,hu⟩ := hopen.mp ht
      exact ⟨hdial,heard,hopens,hu⟩
    · rintro ⟨hdial,heard,hopens,hu⟩
      exact .inr ⟨hdial,hopen.mpr ⟨said,heard,hopens,rfl,hu⟩⟩
  · exact (opens_reads h).resolve_left hs
  · rw [proxied_iff hauth hproxy] at h
    obtain ⟨e,-,-,⟨⟩⟩ | ⟨-,ht⟩ := h
    · exact ⟨[],.nothing,rfl⟩
    · obtain ⟨said',heard,hshown,hsaid,hunread⟩ := tunnel_tells hs hlogin ⟨[],incoming⟩
      rw [ht] at hsaid hunread
      obtain rfl : said=said' := hsaid
      exact ⟨heard,hshown,hunread⟩

end TradeGate.Network
