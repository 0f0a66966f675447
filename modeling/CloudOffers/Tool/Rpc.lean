import CloudOffers.Server
/-!
The messages of the server: JSON-RPC requests of the Model Context Protocol, each answered by one
reply. Notifications are not answered.
-/

namespace CloudOffers.Rpc

/-- The version of the protocol that is offered where the client asks for none. -/
def protocolVersion : String := "2025-06-18"

def paramJson (p : Tool.Param) : String × Json :=
  let description := match p.description? with
    | some text => [("description", Json.str text)]
    | none => []
  (p.name, .obj (description ++ [("type", .str "string")]))

def toolJson (t : Tool) : Json :=
  .obj [("name", .str t.name), ("description", .str t.description),
    ("inputSchema", .obj [("type", .str "object"), ("title", .str t.params.1),
      ("properties", .obj (t.params.2.map paramJson)),
      ("required", .ofTexts (t.params.2.map (·.name)))])]

def initializeJson (params : Json) : Json :=
  let version := match params.member? "protocolVersion" with
    | some (.str version) => version
    | _ => protocolVersion
  let info := ServerInfo.this
  .obj [("protocolVersion", .str version), ("capabilities", .obj [("tools", .obj [])]),
    ("serverInfo", .obj [("name", .str info.name), ("version", .str info.version)]),
    ("instructions", .str info.instructions)]

def resultJson (text : String) : Json :=
  .obj [("content", .arr [.obj [("type", .str "text"), ("text", .str text)]]), ("isError", .bool false)]

def errorJson (code : Int) (message : String) : Json :=
  let number := if 0 ≤ code then Number.nat code.toNat else .negative code.natAbs
  .obj [("code", .num number), ("message", .str message)]

def toolName (params : Json) : String :=
  match params.member? "name" with
  | some (.str name) => name
  | _ => ""

/-- Calls a tool, from what is held and what the metrics are rendered as. -/
def callTool (inv : Inventory) (held : Lookup) (metrics : Except Refusal String) (params : Json) :
    Except Json Json :=
  match Tool.call inv held metrics (toolName params) (params.member? "arguments") with
  | .ok text => .ok (resultJson text)
  | .error e => .error (errorJson e.code e.message)

def answer (wall : Nat → Nat) (s : Server) (method : String) (params : Json) : Except Json Json :=
  match method with
  | "initialize" => .ok (initializeJson params)
  | "ping" => .ok (.obj [])
  | "tools/list" => .ok (.obj [("tools", .arr (Tool.all.map toolJson))])
  | "tools/call" => callTool s.inventory (s.held wall) s.registry params
  | _ => .error (errorJson (-32601) method)

def log (wall : Nat → Nat) (s : Server) (method : String) (params : Json) : List Log.Event :=
  if method = "tools/call" then
    Tool.callLog s.inventory (s.held wall) (toolName params) (params.member? "arguments")
  else []

/-- The reply to a message and what is logged; a message without an identifier has no reply. -/
def respond (wall : Nat → Nat) (s : Server) (message : Json) : Option Json × List Log.Event :=
  match message.member? "id", message.member? "method" with
  | some id, some (.str method) =>
    let params := (message.member? "params").getD (.obj [])
    let outcome := match answer wall s method params with
      | .ok result => ("result", result)
      | .error e => ("error", e)
    (some (.obj [("jsonrpc", .str "2.0"), ("id", id), outcome]), log wall s method params)
  | _, _ => (none, [])

end CloudOffers.Rpc
