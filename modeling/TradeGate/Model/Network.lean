import Mathlib
import TradeGate.Js.Utf8
import TradeGate.Number.Double
import TradeGate.Words.Talk

/-! The way of execd's WebSocket through a proxy: the host that is asked for, and the handshakes of CONNECT and of
SOCKS 5. -/
namespace TradeGate.Network
open Talk

inductive WsError
  | io (message : String)
  /-- A stream that ends before it was read as far as needed. -/
  | eof
  | dial (message : String)

structure Proxy where
  scheme : Option String
  host : Option String
  port : Option UInt16
  /-- The value of the header, if it is text. -/
  basicAuth : Option String
  rawAuth : Option (String × String)

inductive IpAddr
  | v4 (octets : Vector UInt8 4)
  | v6 (octets : Vector UInt8 16)

def IpAddr.isIpv4 : IpAddr → Bool
  | v4 _ => true
  | v6 _ => false

/-- The network: the proxy that the system has for an address, what becomes of a connection, and the resolver. -/
class Net where
  intercept : String → Option Proxy
  dial : String → UInt16 → Except String Unit
  lookupHost : String → UInt16 → Except String (List IpAddr)

/-- `str::as_bytes`. -/
def bytes (s : String) : List UInt8 := Js.Utf8.encode s.toList

/-- `str::rsplit_once`. -/
def rsplitOnce (mark : Char) (cs : List Char) : Option (List Char × List Char) :=
  if mark ∈ cs then
    let last := (cs.reverse.takeWhile (· ≠ mark)).reverse
    some (cs.take (cs.length-last.length-1),last)
  else none

def wsAuthority (url : String) : String × UInt16 :=
  let cs := url.toList
  let rest :=
    if "wss://".toList.isPrefixOf cs then cs.drop 6
    else if "ws://".toList.isPrefixOf cs then cs.drop 5
    else cs
  let authority := rest.takeWhile fun c => c ≠ '/' && c ≠ '?'
  let default := if "ws://".toList.isPrefixOf cs then 80 else 443
  match rsplitOnce ':' authority with
  | some (h,p) =>
    match Rust.parseUnsigned (2^16) p with
    | some n => (String.ofList h,UInt16.ofNat n)
    | none => (String.ofList authority,default)
  | none => (String.ofList authority,default)

/-! CONNECT. -/

def hostPort (host : String) (port : UInt16) : String := host++":"++toString port

def connectRequest (proxy : Proxy) (host : String) (port : UInt16) : String :=
  "CONNECT "++hostPort host port++" HTTP/1.1\r\nHost: "++hostPort host port++"\r\n"++
    (proxy.basicAuth.elim "" fun auth => "Proxy-Authorization: "++auth++"\r\n")++"\r\n"

def endsBlank (response : List UInt8) : Bool := [13,10,13,10].isSuffixOf response

/-- `str::lines`, the first of them: a carriage return goes with the line feed. -/
def firstLine (cs : List Char) : List Char :=
  let line := cs.takeWhile (· ≠ '\n')
  if '\n' ∈ cs ∧ line.getLast?=some '\r' then line.dropLast else line

/-- `String::from_utf8_lossy` puts the mark of a bad sequence where `Js.Utf8.decode` does. -/
def statusLine (response : List UInt8) : List Char := firstLine (Js.Utf8.decode response)

def accepted (response : List UInt8) : Prop :=
  "HTTP/1.".toList <+: statusLine response ∧ " 200".toList <:+: statusLine response

instance (response : List UInt8) : Decidable (accepted response) := inferInstanceAs (Decidable (_ ∧ _))

def httpTunnel (proxy : Proxy) (host : String) (port : UInt16) : Talk WsError Unit := do
  write (bytes (connectRequest proxy host port))
  let response ← readUntil endsBlank 8192 (.io "proxy CONNECT: 响应异常或连接被关闭")
  if accepted response then pure ()
  else fail (.io ("proxy CONNECT 被拒:"++String.ofList (statusLine response)))

/-! SOCKS 5. -/

/-- `len() as u8`. -/
def len8 (bs : List UInt8) : UInt8 := UInt8.ofNat bs.length

def greeting (user : String) : List UInt8 := if user ≠ "" then [5,2,0,2] else [5,1,0]

def auth (user pass : String) : List UInt8 :=
  [1,len8 (bytes user)]++bytes user++[len8 (bytes pass)]++bytes pass

def debugBytes (bs : List UInt8) : String := "["++", ".intercalate (bs.map toString)++"]"

def authenticate (user pass : String) : Talk WsError Unit := do
  write (auth user pass)
  let reply ← readExact .eof 2
  if reply.getD 1 0 ≠ 0 then fail (.io "socks5 认证被拒") else pure ()

def negotiate (user pass : String) : Talk WsError Unit := do
  write (greeting user)
  let reply ← readExact .eof 2
  if reply=[5,0] then pure ()
  else if reply=[5,2] ∧ user ≠ "" then authenticate user pass
  else fail (.io ("socks5 协商失败:"++debugBytes reply))

def portBytes (port : UInt16) : List UInt8 := [UInt8.ofNat (port.toNat/256),UInt8.ofNat (port.toNat%256)]

/-- The address that is asked for; `socks5` resolves the host here, `socks5h` leaves it to the proxy. -/
def target [Net] (scheme host : String) (port : UInt16) : Except WsError (List UInt8) :=
  if scheme="socks5" then
    match Net.lookupHost host port with
    | .error e => .error (.io ("socks5 本机 DNS 解析失败:"++e))
    | .ok addrs =>
      match (addrs.find? IpAddr.isIpv4).or addrs.head? with
      | none => .error (.io "socks5 本机 DNS 解析无结果")
      | some (.v4 octets) => .ok (1::octets.toList)
      | some (.v6 octets) => .ok (4::octets.toList)
  else .ok (3::len8 (bytes host)::bytes host)

def connectTo (address : List UInt8) (port : UInt16) : List UInt8 := [5,1,0]++address++portBytes port

def addrLen (kind : UInt8) : Talk WsError ℕ :=
  if kind=1 then pure 4
  else if kind=4 then pure 16
  else if kind=3 then do
    let len ← readExact .eof 1
    pure (len.getD 0 0).toNat
  else fail (.io ("socks5 未知地址类型 "++toString kind))

def requestConnect (address : List UInt8) (port : UInt16) : Talk WsError Unit := do
  write (connectTo address port)
  let head ← readExact .eof 4
  if head.getD 1 0 ≠ 0 then fail (.io ("socks5 连接被拒(rep="++toString (head.getD 1 0)++")"))
  else do
    let n ← addrLen (head.getD 3 0)
    let _ ← readExact .eof (n+2)
    pure ()

def tooLong (user pass host : String) : Prop :=
  255<(bytes user).length ∨ 255<(bytes pass).length ∨ 255<(bytes host).length

instance (user pass host : String) : Decidable (tooLong user pass host) := inferInstanceAs (Decidable (_ ∨ _))

def socksTunnel [Net] (scheme : String) (proxy : Proxy) (host : String) (port : UInt16) : Talk WsError Unit :=
  let (user,pass) := proxy.rawAuth.getD ("","")
  if tooLong user pass host then fail (.io "socks5 用户名/密码/主机名超长(>255)")
  else do
    negotiate user pass
    match target scheme host port with
    | .error e => fail e
    | .ok address => requestConnect address port

def tunnel [Net] (proxy : Proxy) (host : String) (port : UInt16) : Talk WsError Unit :=
  let scheme := proxy.scheme.getD "http"
  if scheme="http" then httpTunnel proxy host port
  else if scheme="socks5" ∨ scheme="socks5h" then socksTunnel scheme proxy host port
  else fail (.io ("不支持的代理形态 "++scheme++"://(仅支持 http/socks5/socks5h),已拒绝直连回退"))

/-- Where the connection goes: to the exchange itself, or to a proxy, with what came of it there. -/
inductive Route
  | direct
  | proxied (result : Except WsError Unit) (conn : Conn)

def defaultPort (proxy : Proxy) : UInt16 :=
  if "socks".toList.isPrefixOf (proxy.scheme.getD "http").toList then 1080 else 80

/-- `incoming` is all that the proxy will send. -/
def connectWsViaProxy [Net] (url : String) (incoming : List UInt8) : Route :=
  let (host,port) := wsAuthority url
  match Net.intercept ("https://"++hostPort host port++"/") with
  | none => .direct
  | some proxy =>
    match Net.dial (proxy.host.getD "") (proxy.port.getD (defaultPort proxy)) with
    | .error e => .proxied (.error (.dial e)) ⟨[],incoming⟩
    | .ok () =>
      let (result,conn) := tunnel proxy host port ⟨[],incoming⟩
      .proxied result conn

example : wsAuthority "wss://stream.example:9443/ws?x=1"=("stream.example",9443) ∧
    wsAuthority "ws://stream.example/ws"=("stream.example",80) := by decide +kernel

end TradeGate.Network
