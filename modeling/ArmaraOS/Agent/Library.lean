import ArmaraOS.Types.Json

/-!
The functions of other crates and of the standard library that the agent loop
calls and that have no source in the repository: SHA-256 (`sha2`), JSON text
(`serde_json`) and the Unicode lower-case tables (`str::to_lowercase`).
-/

namespace ArmaraOS.Agent

/-- The library functions a turn runs with. -/
structure Library where
  sha256Hex : String → String
  jsonToString : Json → String
  jsonFromStr : String → Option Json
  toLowercase : String → String

end ArmaraOS.Agent
