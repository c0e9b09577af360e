/-!
# Texts of the prompt

The fixed parts of the prompt for a language model: what it has to know of the console, of the
console's library and of the form of its answer.
-/

namespace Cartridge.Prompt

/-- What every console has to make do with. -/
def hardware : List String :=
  ["GAMEBOY HARDWARE CONSTRAINTS:",
   "- CPU: 8-bit Sharp LR35902 (Z80-like) at 4.194 MHz",
   "- RAM: 8KB work RAM (0xC000-0xDFFF)",
   "- Video RAM: 8KB (0x8000-0x9FFF)",
   "- High RAM: 127 bytes (0xFF80-0xFFFE) - fastest access",
   "- ROM: 32KB per bank (banking available for larger programs)",
   "- No floating point unit - use fixed point arithmetic",
   "- Limited stack space - avoid deep recursion"]

/-- What the answer should look like. -/
def answerRules : List String :=
  ["OUTPUT FORMAT:",
   "- Return ONLY valid C code",
   "- Include necessary #include statements",
   "- Use GBDK function calls for hardware access",
   "- Add brief comments for complex operations",
   "- Ensure code compiles with GBDK",
   "- No markdown formatting or explanations"]

/-- The functions and constants of the console's library. -/
def library : List String :=
  ["// DISPLAY FUNCTIONS",
   "void set_bkg_tiles(UINT8 x, UINT8 y, UINT8 w, UINT8 h, unsigned char *tiles);",
   "void set_bkg_data(UINT8 first_tile, UINT8 nb_tiles, unsigned char *data);",
   "void move_bkg(UINT8 x, UINT8 y);",
   "void scroll_bkg(INT8 x, INT8 y);",
   "",
   "// SPRITE FUNCTIONS",
   "void set_sprite_data(UINT8 first_tile, UINT8 nb_tiles, unsigned char *data);",
   "void set_sprite_tile(UINT8 nb, UINT8 tile);",
   "void move_sprite(UINT8 nb, UINT8 x, UINT8 y);",
   "void set_sprite_prop(UINT8 nb, UINT8 prop);",
   "",
   "// INPUT FUNCTIONS",
   "UINT8 joypad(void);",
   "UINT8 waitpad(UINT8 mask);",
   "void waitpadup(void);",
   "",
   "// SYSTEM FUNCTIONS",
   "void wait_vbl_done(void);",
   "void delay(UINT16 d);",
   "void enable_interrupts(void);",
   "void disable_interrupts(void);",
   "",
   "// DISPLAY CONTROL",
   "#define DISPLAY_ON    0x80U",
   "#define DISPLAY_OFF   0x00U",
   "#define SHOW_BKG      0x01U",
   "#define HIDE_BKG      0x00U",
   "#define SHOW_SPRITES  0x02U",
   "#define HIDE_SPRITES  0x00U",
   "",
   "// JOYPAD CONSTANTS",
   "#define J_A      0x01U",
   "#define J_B      0x02U",
   "#define J_SELECT 0x04U",
   "#define J_START  0x08U",
   "#define J_RIGHT  0x10U",
   "#define J_LEFT   0x20U",
   "#define J_UP     0x40U",
   "#define J_DOWN   0x80U"]

/-- A place in a template that is filled in. -/
def slot (name : String) : String := "\x7b" ++ name ++ "\x7d"

/-- The template of a prompt, line by line. -/
def templateLines : List String :=
  ["You are an expert GameBoy C programmer and transpiler. Your job is to convert " ++
     "JavaScript/TypeScript code into highly optimized C code that runs efficiently on the " ++
     "Nintendo GameBoy.",
   "",
   slot "GAMEBOY_CONSTRAINTS",
   "",
   slot "CONTEXT_INFO",
   "",
   slot "GBDK_FUNCTIONS",
   "",
   "CONVERSION RULES:",
   "1. Prefer unsigned char over int when possible (0-255 range)",
   "2. Use signed char for small negative values (-128 to 127)",
   "3. Avoid floating point operations (GameBoy has no FPU)",
   "4. Minimize RAM usage - GameBoy only has 8KB work RAM",
   "5. Use GBDK functions for hardware access",
   "6. Convert console.log() to printf() with proper formatting",
   "7. Convert arrays to C arrays with fixed sizes",
   "8. Convert objects to structs when beneficial",
   "9. Replace modern JS features with C equivalents",
   "10. Optimize for size first, then speed",
   "",
   "MEMORY OPTIMIZATION:",
   "- Variables used frequently: consider zero page (0xFF80-0xFFFE)",
   "- Constants: place in ROM with __code qualifier",
   "- Large data: consider ROM banking if needed",
   "- Temporary variables: use stack/registers when possible",
   "",
   slot "EXAMPLES",
   "",
   slot "OUTPUT_FORMAT"]

/-- What is said of each console. -/
def consoleNotes : List (String × String) :=
  [("dmg", "Original GameBoy, monochrome"),
   ("cgb", "GameBoy Color, color support"),
   ("sgb", "Super GameBoy, enhanced features")]

/-- What is said of code with a known purpose. -/
def purposeNotes : List (String × String) :=
  [("game-loop", "This is a game loop. Optimize for 60fps performance, use wait_vbl_done() " ++
     "for timing."),
   ("sprite-animation", "This handles sprite animation. Use GBDK sprite functions " ++
     "efficiently, minimize VRAM updates."),
   ("input-handling", "This handles input. Use joypad() function, implement proper " ++
     "debouncing if needed."),
   ("data-structure", "This manages data structures. Optimize for GameBoy memory " ++
     "constraints, use fixed-size arrays.")]

end Cartridge.Prompt
