import Mathlib.Logic.Basic

/-!
# The UART

`uart.vhd`: the transmitter and the receiver, each with a state machine towards the
CPU, one towards the line and a baud-rate counter. `Uart` is what the registers hold
during a cycle, each signal of the source is a function of it and of the cycle's
inputs, and `step` is the rising edge of `clk`.

The interrupt requests and the modem lines RTS and CTS are not modelled: neither the
transmitter nor the receiver looks at them.
-/

namespace Xinu.Serial

abbrev Octet := BitVec 8

-- the baud-rate dividers of p_UART, each half the cycles of a bit
def baudRt0 : Nat := 4 / 2
def baudRt1 : Nat := 8 / 2
def baudRt2 : Nat := 16 / 2
def baudRt3 : Nat := 32 / 2
def baudRt4 : Nat := 64 / 2
def baudRt5 : Nat := 128 / 2
def baudRt6 : Nat := 2604 / 2
def baudRt7 : Nat := 5208 / 2

/-- `txcpu_state`. -/
inductive TxcpuState
  | stIdle | stCheck | stDone
  deriving DecidableEq

/-- `tx_state`. -/
inductive TxState
  | stIdle | stCheck | stStart
  | stB0 | stB1 | stB2 | stB3 | stB4 | stB5 | stB6 | stB7
  | stStop | stEnd | stDone
  deriving DecidableEq

/-- `rxcpu_state`. -/
inductive RxcpuState
  | stIdle | stCopy | stCheck | stError
  deriving DecidableEq

/-- `rx_state`. -/
inductive RxState
  | stIdle | stCheck | stStart
  | stB0 | stB1 | stB2 | stB3 | stB4 | stB5 | stB6 | stB7
  | stStop | stDone
  deriving DecidableEq

/-- The select lines and the data of one cycle. -/
structure Inputs where
  sCtrlwr : Bool
  sTx : Bool
  sRx : Bool
  dInp : Octet

/-- The registers of the UART during one cycle. -/
structure Uart where
  ctrl : Octet
  txreg : Octet
  txcpu : TxcpuState
  tx : TxState
  /-- the shift register `U_transmit`, and its output -/
  transmit : BitVec 10
  txdat : Bool
  /-- `baud_cnt` of `U_bit_rt_tx` -/
  txBaudCnt : Nat
  txclk : Bool
  txclkRise : Bool
  /-- the shift register `U_receive` -/
  staRecvSto : BitVec 10
  rxdatNew : Bool
  rxdatInt : Bool
  rxdatOld : Bool
  rx : RxState
  /-- `baud_cnt` of `U_bit_rt_rx` -/
  rxBaudCnt : Nat
  rxclk : Bool
  rxclkFall : Bool
  rxclkRise : Bool
  rxcpu : RxcpuState
  received : Octet
  errFraming : Bool
  errOverrun : Bool
  deriving DecidableEq

namespace TxcpuState

/-- `tx_ld`. -/
def ld : TxcpuState → Bool
  | stDone => true
  | _ => false

/-- `tx_bfr_empt`. -/
def bfrEmpt : TxcpuState → Bool
  | stIdle => true
  | _ => false

/-- `U_TXCPU_st_transitions`. -/
def next (sTx txShrFull : Bool) : TxcpuState → TxcpuState
  | stIdle => if sTx then stCheck else stIdle
  | stCheck => if txShrFull then stCheck else stDone
  | stDone => stIdle

end TxcpuState

namespace TxState

/-- `tx_shr_full`. -/
def shrFull : TxState → Bool
  | stIdle => false
  | _ => true

/-- `tx_shift`. -/
def shift : TxState → Bool
  | stIdle | stCheck | stDone => false
  | _ => true

/-- `en_tx_clk`. -/
def enClk : TxState → Bool
  | stIdle | stDone => false
  | _ => true

/-- `U_TX_st_transitions`. -/
def next (txLd txclkRise : Bool) : TxState → TxState
  | stIdle => if txLd then stCheck else stIdle
  | stCheck => stStart
  | stStart => if txclkRise then stB0 else stStart
  | stB0 => if txclkRise then stB1 else stB0
  | stB1 => if txclkRise then stB2 else stB1
  | stB2 => if txclkRise then stB3 else stB2
  | stB3 => if txclkRise then stB4 else stB3
  | stB4 => if txclkRise then stB5 else stB4
  | stB5 => if txclkRise then stB6 else stB5
  | stB6 => if txclkRise then stB7 else stB6
  | stB7 => if txclkRise then stStop else stB7
  | stStop => if txclkRise then stEnd else stStop
  | stEnd => if txclkRise then stDone else stEnd
  | stDone => stIdle

end TxState

namespace RxcpuState

/-- `rx_ld`. -/
def ld : RxcpuState → Bool
  | stCopy => true
  | _ => false

/-- `a_overrun`. -/
def overrun : RxcpuState → Bool
  | stError => true
  | _ => false

/-- `U_RXCPU_st_transitions`. -/
def next (rxDone sRx : Bool) : RxcpuState → RxcpuState
  | stIdle => if rxDone then stCopy else stIdle
  | stCopy => stCheck
  | stCheck => if rxDone then stError else if sRx then stIdle else stCheck
  | stError => stCheck

end RxcpuState

namespace RxState

/-- `rx_done`. -/
def done : RxState → Bool
  | stDone => true
  | _ => false

/-- `rx_shift`. -/
def shift : RxState → Bool
  | stIdle | stCheck | stDone => false
  | _ => true

/-- `reset_rxck`. -/
def resetRxck : RxState → Bool
  | stCheck => true
  | _ => false

/-- `en_rx_clk`. -/
def enClk : RxState → Bool
  | stIdle | stDone => false
  | _ => true

/-- `U_RX_st_transitions`. -/
def next (rxclkFall rxdat1to0 rxdat : Bool) : RxState → RxState
  | stIdle => if rxdat1to0 then stCheck else stIdle
  | stCheck => if !rxdat then stStart else stIdle
  | stStart => if rxclkFall then stB0 else stStart
  | stB0 => if rxclkFall then stB1 else stB0
  | stB1 => if rxclkFall then stB2 else stB1
  | stB2 => if rxclkFall then stB3 else stB2
  | stB3 => if rxclkFall then stB4 else stB3
  | stB4 => if rxclkFall then stB5 else stB4
  | stB5 => if rxclkFall then stB6 else stB5
  | stB6 => if rxclkFall then stB7 else stB6
  | stB7 => if rxclkFall then stStop else stB7
  | stStop => if rxclkFall then stDone else stStop
  | stDone => stIdle

end RxState

/-- The first stage of a shift register: the others move down by one place. -/
def shiftIn (b : Bool) (w : BitVec 10) : BitVec 10 := BitVec.ofBool b ++ w.extractLsb' 1 9

namespace Uart

variable (i : Inputs) (rxdat : Bool) (u : Uart)

/-- `tx_baud_div` and `rx_baud_div`. -/
def baudDiv : Nat :=
  match (u.ctrl.extractLsb' 0 3).toNat with
  | 0b000 => baudRt0
  | 0b001 => baudRt1
  | 0b010 => baudRt2
  | 0b011 => baudRt3
  | 0b100 => baudRt4
  | 0b101 => baudRt5
  | 0b110 => baudRt6
  | _ => baudRt7

/-- `tx_next`. -/
def txNext : Bool := u.txclkRise && u.tx.shift

/-- `sta_xmit_sto`. -/
def staXmitSto : BitVec 10 := 1#1 ++ u.txreg ++ 0#1

/-- `rx_next`. -/
def rxNext : Bool := u.rx.shift && u.rxclkRise

/-- `rxreg`. -/
def rxreg : Octet := u.staRecvSto.extractLsb' 1 8

/-- `rxdat_1to0`. -/
def rxdat1to0 : Bool := u.rxdatOld && !u.rxdatNew

/-- `a_framing`. -/
def aFraming : Bool := u.rxcpu.ld && (!u.staRecvSto.getLsbD 9 || u.staRecvSto.getLsbD 0)

/-- One rising edge of `clk`. -/
def step : Uart :=
  -- a clock period ends where the counter has reached the divider
  let txEnds := u.tx.enClk && u.txBaudCnt == u.baudDiv
  let rxEnds := u.rx.enClk && u.rxBaudCnt == u.baudDiv
  { ctrl := if i.sCtrlwr then i.dInp else u.ctrl,
    txreg := if i.sTx then i.dInp else u.txreg,
    txcpu := u.txcpu.next i.sTx u.tx.shrFull,
    tx := u.tx.next u.txcpu.ld u.txclkRise,
    transmit :=
      if u.txcpu.ld then u.staXmitSto
      else if u.txNext then shiftIn true u.transmit
      else u.transmit,
    txdat := if !u.txcpu.ld && u.txNext then u.transmit.getLsbD 0 else u.txdat,
    txBaudCnt :=
      if u.txcpu.ld then 1
      else if txEnds then 1
      else if u.tx.enClk then u.txBaudCnt + 1
      else u.txBaudCnt,
    txclk := if u.txcpu.ld then false else if txEnds then !u.txclk else u.txclk,
    txclkRise :=
      if u.txcpu.ld then false
      else if txEnds then !u.txclk
      else if u.tx.enClk then false
      else u.txclkRise,
    staRecvSto := if u.rxNext then shiftIn rxdat u.staRecvSto else u.staRecvSto,
    rxdatNew := rxdat,
    rxdatInt := u.rxdatNew,
    rxdatOld := u.rxdatInt,
    rx := u.rx.next u.rxclkFall u.rxdat1to0 rxdat,
    rxBaudCnt :=
      if u.rx.resetRxck then u.baudDiv / 2
      else if rxEnds then 1
      else if u.rx.enClk then u.rxBaudCnt + 1
      else u.rxBaudCnt,
    rxclk := if u.rx.resetRxck then false else if rxEnds then !u.rxclk else u.rxclk,
    rxclkFall :=
      if u.rx.resetRxck then false
      else if rxEnds then u.rxclk
      else if u.rx.enClk then false
      else u.rxclkFall,
    rxclkRise :=
      if u.rx.resetRxck then false
      -- at a falling edge `rxclk_rise` keeps its value
      else if rxEnds then !u.rxclk || u.rxclkRise
      else if u.rx.enClk then false
      else u.rxclkRise,
    rxcpu := u.rxcpu.next u.rx.done i.sRx,
    received := if u.rxcpu.ld then u.rxreg else u.received,
    errFraming := (u.aFraming || u.errFraming) && !i.sRx,
    errOverrun := (u.rxcpu.overrun || u.errOverrun) && !i.sRx }

/-- The UART after `rst`. -/
def reset : Uart :=
  { ctrl := 0, txreg := 0, txcpu := .stIdle, tx := .stIdle, transmit := 0b1111111111, txdat := true,
    txBaudCnt := 0, txclk := false, txclkRise := false, staRecvSto := 0, rxdatNew := false,
    rxdatInt := false, rxdatOld := false, rx := .stIdle, rxBaudCnt := 0, rxclk := false,
    rxclkFall := false, rxclkRise := false, rxcpu := .stIdle, received := 0, errFraming := false,
    errOverrun := false }

end Uart

/-- The UART after `n` cycles with `txdat` connected to `rxdat`. -/
def loopback (ins : Nat → Inputs) (u : Uart) : Nat → Uart
  | 0 => u
  | n + 1 => (loopback ins u n).step (ins n) (loopback ins u n).txdat

/-- The octets written to the transmit register in the first `n` cycles. -/
def sent (ins : Nat → Inputs) : Nat → List Octet
  | 0 => []
  | n + 1 => sent ins n ++ if (ins n).sTx then [(ins n).dInp] else []

/-- The octets that the receiver has loaded into its receive register. -/
def loaded (ins : Nat → Inputs) (u : Uart) : Nat → List Octet
  | 0 => []
  | n + 1 =>
      loaded ins u n ++
        if (loopback ins u n).rxcpu.ld then [(loopback ins u n).rxreg] else []

end Xinu.Serial
